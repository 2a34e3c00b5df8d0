import Libjadx.Spec.Repository
import Mathlib.Tactic.Common

/-!
# The project repository

* `Untouched`, `Follows`: what a call may do to the repository when it throws, and at all.
* `commitCodeData_triple`, `commitMappingsPath_triple`, `commitReload_triple`, `save_triple`:
  where each publishing call ends. The four other calls only look.
* `Inv`: what a candidate object still says about its repository.
* `operation_exact_iff` (every reachable world, every call): the call is atomic and its receipt
  exact, unless it commits an effective candidate that was staged before the project had a
  document.
-/

namespace Libjadx

/-! ## Documents -/

namespace Entry

variable {α : Type} {same : α → α → Bool}

/-- A list is kept only if it is one of objects. -/
theorem preserve_error {updated : List (Option α)} {old : List (Entry α)} {e : Throwable}
    (h : preserve same old updated = .error e) : e = notAnObject := by
  induction updated generalizing old with
  | nil => exact absurd h (by simp [preserve])
  | cons value updated ih =>
    cases value with
    | none => exact (Except.error.inj h).symm
    | some value =>
      simp only [preserve] at h
      split at h
      all_goals
        rename_i hfind
        cases hr : preserve same _ updated with
        | error e' =>
          rw [hr] at h
          obtain rfl := Except.error.inj h
          exact ih hr
        | ok rest =>
          rw [hr] at h
          exact absurd h (by simp [bind, Except.bind, pure, Except.pure])

/-- So is a list that is merged. -/
theorem merge_error {old : Option (List (Entry α))} {updated : List (Option α)} {e : Throwable}
    (h : merge same old updated = .error e) : e = notAnObject := by
  cases old with
  | none => exact absurd h (by simp [merge])
  | some entries => exact preserve_error h

end Entry

namespace Document

variable {d d' : Document} {c : CodeData}

/-- Annotations that are set take the place of the old, and of nothing else. -/
theorem setCodeData_ok (h : d.setCodeData c = .ok d') :
    d'.projectPath = d.projectPath ∧ d'.mappingsPath = d.mappingsPath ∧
      d'.inputFiles = d.inputFiles ∧ d'.codeData = c := by
  unfold setCodeData at h
  cases hr : Entry.merge sameRename d.renames c.renames with
  | error e => exact absurd h (by simp [hr, bind, Except.bind])
  | ok renames =>
    cases hc : Entry.merge sameComment d.comments c.comments with
    | error e => exact absurd h (by simp [hr, hc, bind, Except.bind])
    | ok comments =>
      simp only [hr, hc, bind, Except.bind, pure, Except.pure] at h
      obtain rfl := Except.ok.inj h
      exact ⟨rfl, rfl, rfl, rfl⟩

/-- They cannot be set beside what is no object. -/
theorem setCodeData_error {e : Throwable} (h : d.setCodeData c = .error e) :
    e = Entry.notAnObject := by
  unfold setCodeData at h
  cases hr : Entry.merge sameRename d.renames c.renames with
  | error e' =>
    simp only [hr, bind, Except.bind] at h
    exact Except.error.inj h ▸ Entry.merge_error hr
  | ok renames =>
    cases hc : Entry.merge sameComment d.comments c.comments with
    | error e' =>
      simp only [hr, hc, bind, Except.bind] at h
      exact Except.error.inj h ▸ Entry.merge_error hc
    | ok comments => exact absurd h (by simp [hr, hc, bind, Except.bind, pure, Except.pure])

/-- A document that is written keeps its paths. -/
theorem toJsonTree_ok (h : d.toJsonTree = .ok d') :
    d'.projectPath = d.projectPath ∧ d'.mappingsPath = d.mappingsPath :=
  ⟨(setCodeData_ok h).1, (setCodeData_ok h).2.1⟩

theorem codeDataJson_error {e : Throwable} (h : d.codeDataJson = .error e) :
    e = Entry.notAnObject := by
  unfold codeDataJson at h
  cases ht : d.toJsonTree with
  | error e' =>
    simp only [ht, bind, Except.bind] at h
    exact Except.error.inj h ▸ setCodeData_error ht
  | ok tree => exact absurd h (by simp [ht, bind, Except.bind, pure, Except.pure])

/-- A document that moves keeps its mappings. -/
theorem rebasedTo_ok {target : Path} (h : d.rebasedTo target = .ok d') :
    d'.mappingsPath = d.mappingsPath := by
  unfold rebasedTo at h
  cases ht : d.toJsonTree with
  | error e => exact absurd h (by simp [ht, bind, Except.bind])
  | ok tree =>
    simp only [ht, bind, Except.bind, pure, Except.pure] at h
    exact Except.ok.inj h ▸ rfl

end Document

theorem Repository.codeDataJson_error {s : Repository} {e : Throwable}
    (h : s.codeDataJson = .error e) :
    e = Entry.notAnObject := by
  unfold Repository.codeDataJson Repository.codeDataText at h
  split at h
  · exact absurd h (by simp)
  · exact Document.codeDataJson_error h

namespace NativeProjectRepository

open Locked

variable {disk : Disk} {s s₀ t : Repository} {bad : Throwable → Prop} {I E : Repository → Prop}

/-! ## What a call may do -/

/-- The errors of a call that is refused: a stale revision, an external modification, a security
error, unsaved changes or an invalid candidate. -/
def refusal : Throwable → Bool
  | .staleRevision | .unsavedChanges | .externalModification _ | .security _ => true
  | .illegalState message => message ∈
      ["Invalid or consumed code-data candidate", "Code-data candidate persistence baseline changed",
        "Code-data candidate baseline changed"]
  | _ => false

/-- Nothing changed but that the disk was looked at. -/
def Untouched (s₀ s : Repository) : Prop := s = { s₀ with reads := s.reads }

theorem Untouched.refl (s : Repository) : Untouched s s := rfl

/-- The code data cannot be written. -/
def Broken (s : Repository) : Prop := ∃ e, s.codeDataJson = .error e

/-- What any call leaves: while neither the revision nor the persistence generation moves, the
document stays, unless it was just made or cannot be written. -/
structure Follows (s₀ s : Repository) : Prop where
  self : s.self = s₀.self
  revision : s₀.logicalRevision ≤ s.logicalRevision
  generation : s₀.identityGeneration ≤ s.identityGeneration
  document : s.logicalRevision = s₀.logicalRevision → s.identityGeneration = s₀.identityGeneration →
    s.document = s₀.document ∨ s₀.document = none ∨ Broken s

/-- What is untouched follows. -/
theorem Untouched.follows (h : Untouched s₀ s) : Follows s₀ s := by
  rw [h]
  exact ⟨rfl, le_rfl, le_rfl, fun _ _ => .inl rfl⟩

/-- A new revision may come with any document. -/
theorem Follows.of_revision (hself : s.self = s₀.self)
    (hrev : s₀.logicalRevision < s.logicalRevision)
    (hgen : s₀.identityGeneration ≤ s.identityGeneration) : Follows s₀ s :=
  ⟨hself, hrev.le, hgen, fun h => absurd h (by omega)⟩

/-- So may a new persistence generation. -/
theorem Follows.of_generation (hself : s.self = s₀.self)
    (hrev : s₀.logicalRevision ≤ s.logicalRevision)
    (hgen : s₀.identityGeneration < s.identityGeneration) : Follows s₀ s :=
  ⟨hself, hrev, hgen.le, fun _ h => absurd h (by omega)⟩

/-! ## Looking at the disk -/

/-- `I` says nothing about how often the disk was used. -/
def Stable (I : Repository → Prop) : Prop := ∀ s n, I s → I { s with reads := n }

/-- What does not touch the project keeps it untouched. -/
theorem stable_untouched : Stable (Untouched s₀) := fun s n h => by
  unfold Untouched at h ⊢
  rw [h]

/-- A computation that may fail touches nothing. -/
theorem triple_liftExcept {α : Type} {r : Except Throwable α} {Q : α → Repository → Prop}
    (hok : ∀ a, r = .ok a → ∀ s, I s → Q a s) (herr : ∀ e, r = .error e → ∀ s, I s → bad e ∨ E s) :
    Triple bad I (liftExcept r) Q E := by
  cases r with
  | ok a => exact triple_pure (hok a rfl)
  | error e => exact triple_throw (herr e rfl)

/-- What follows a pure computation knows its value. -/
theorem triple_liftExcept_bind {α β : Type} {r : Except Throwable α} {f : α → Section β}
    {P : β → Repository → Prop}
    (herr : ∀ e, r = .error e → ∀ s, I s → bad e ∨ E s)
    (hf : ∀ a, r = .ok a → Triple bad I (f a) P E) :
    Triple bad I (liftExcept r >>= f) P E := by
  cases r with
  | ok a => exact hf a rfl
  | error e => exact herr e rfl

/-- Neither does a look at the disk. -/
theorem triple_reading {α : Type} {answer : ℕ → Except Throwable α} (hI : Stable I)
    (herr : ∀ n e, answer n = .error e → ∀ s, I s → bad e ∨ E s) :
    Triple bad I (reading answer) (fun _ => I) E := by
  refine triple_get_keep fun s hs => ?_
  have hcount : Triple bad I (modify fun s => { s with reads := s.reads + 1 }) (fun _ => I) E :=
    triple_modify fun t ht => hI t _ ht
  refine hcount.bind fun _ => ?_
  exact triple_liftExcept (fun a _ t ht => ht) fun e he t ht => herr _ e he t ht

/-- A look at the disk leaves what it found, whatever it throws. -/
theorem keeps_reading {α : Type} {answer : ℕ → Except Throwable α} (hI : Stable I) :
    Keeps bad I (reading answer) := triple_reading hI fun _ _ _ _ hs => .inr hs

/-- The errors that come from looking at a file. -/
def unread (e : Throwable) : Prop := e = .io ∨ e = .noSuchFile ∨ e = .error

/-- A failure of the disk means that nothing was read. -/
theorem unread_toThrowable (f : DiskFailure) : unread f.toThrowable := by
  cases f with
  | io => exact .inl rfl
  | noSuchFile => exact .inr (.inl rfl)
  | error => exact .inr (.inr rfl)

/-- A fingerprint is taken, or fails for want of a reading. -/
theorem triple_fingerprintOf {path : Option Path} (hI : Stable I)
    (herr : ∀ e, unread e → ∀ s, I s → bad e ∨ E s) : Triple bad I (fingerprintOf disk path)
    (fun _ => I) E := by
  cases path with
  | none => exact triple_pure fun _ hs => hs
  | some path =>
    unfold fingerprintOf
    refine triple_reading hI fun n e he => ?_
    cases hf : disk.fingerprint n path with
    | ok f =>
      rw [hf] at he
      exact absurd he (by simp [Except.mapError])
    | error f =>
      rw [hf] at he
      exact herr e (Except.error.inj he ▸ unread_toThrowable f)

/-- **A fingerprint keeps whatever does not look at the disk.** -/
theorem keeps_fingerprintOf {path : Option Path} (hI : Stable I) :
    Keeps bad I (fingerprintOf disk path) :=
  triple_fingerprintOf hI fun _ _ _ hs => .inr hs

/-! ## Checks only look -/

theorem keeps_liftExcept {α : Type} {r : Except Throwable α} : Keeps bad I (liftExcept r) :=
  triple_liftExcept (fun _ _ _ hs => hs) fun _ _ _ hs => .inr hs

theorem keeps_codeDataJson : Keeps bad I codeDataJson := triple_get_keep fun _ _ => keeps_liftExcept

theorem keeps_dirty : Keeps bad I dirty :=
  keeps_codeDataJson.bind fun _ => triple_get_keep fun _ _ => triple_pure fun _ hs => hs

theorem keeps_checkRevision {expected : ℤ} : Keeps bad I (checkRevision expected) :=
  triple_get_keep fun _ _ => (keeps_when keeps_throw)

theorem keeps_checkSession {expected : JString} : Keeps bad I (checkSession expected) :=
  triple_get_keep fun _ _ => (keeps_when keeps_throw)

theorem keeps_checkedReference {path : Path} (hI : Stable I) :
    Keeps bad I (checkedReference disk path) :=
  keeps_reading hI

theorem keeps_checkedAnalysisReference {path : Path} (hI : Stable I) :
    Keeps bad I (checkedAnalysisReference disk path) := (keeps_checkedReference hI).mapError

theorem keeps_fingerprintInput {input : Path} (hI : Stable I) :
    Keeps bad I (fingerprintInput disk input) := by
  refine (keeps_checkedAnalysisReference hI).bind fun checked => ?_
  refine triple_ite (fun _ => keeps_throw) fun _ => ?_
  refine (keeps_fingerprintOf hI).bind fun fingerprint => ?_
  exact triple_ite (fun _ => keeps_throw) fun _ => keeps_pure

/-- **So do those of all inputs.** -/
theorem keeps_fingerprintEach (hI : Stable I) (inputs : List Path) :
    Keeps bad I (fingerprintEach disk inputs) := by
  induction inputs with
  | nil => exact keeps_pure
  | cons input inputs ih =>
    refine (keeps_fingerprintInput hI).bind fun _ => ?_
    exact ih.bind fun _ => keeps_pure

theorem keeps_fingerprintInputs (hI : Stable I) : Keeps bad I (fingerprintInputs disk) :=
  triple_get_keep fun s _ => keeps_fingerprintEach hI s.inputs

theorem keeps_checkInputBaselines {expected : List FileFingerprint} (hI : Stable I) :
    Keeps bad I (checkInputBaselines disk expected) := (keeps_fingerprintInputs hI).bind fun _ =>
      (keeps_when keeps_throw)

/-- So do the references, one by one. -/
theorem keeps_checkedReferences (hI : Stable I) (paths : List Path) :
    Keeps bad I (checkedReferences disk paths) := by
  induction paths with
  | nil => exact keeps_pure
  | cons path paths ih =>
    refine (keeps_checkedReference hI).bind fun _ => ?_
    exact ih.bind fun _ => keeps_pure

theorem keeps_checkMappingReference (hI : Stable I) (mappings : Option Path) :
    Keeps bad I (checkMappingReference disk mappings) := by
  cases mappings with
  | none => exact keeps_pure
  | some mapping => exact (keeps_checkedAnalysisReference hI).bind fun _ => keeps_pure

theorem keeps_checkAttachedMappingBaseline (hI : Stable I) :
    Keeps bad I (checkAttachedMappingBaseline disk) := by
  refine triple_get_keep fun s _ => (keeps_checkMappingReference hI _).bind fun _ => ?_
  exact (keeps_fingerprintOf hI).bind fun _ => keeps_when keeps_throw

/-- So does the check of all that an analysis rests on. -/
theorem keeps_checkAnalysisBaselines (hI : Stable I) : Keeps bad I (checkAnalysisBaselines disk) :=
  triple_get_keep fun _ _ => (keeps_checkInputBaselines hI).bind fun _ =>
    keeps_checkAttachedMappingBaseline hI

theorem keeps_checkUnchanged {path : Option Path} {expected : FileFingerprint} (hI : Stable I) :
    Keeps bad I (checkUnchanged disk path expected) := (keeps_fingerprintOf hI).bind fun _ =>
      (keeps_when keeps_throw)

/-! ## Staging -/

/-- The text of a candidate is that of what it would install. -/
def Written (c : CodeDataCandidate) : Prop :=
  Repository.codeDataText c.document c.codeData = .ok c.next

/-- The candidate's document replaces the repository's in place. -/
structure Matches (c : CodeDataCandidate) (document : Option Document) : Prop where
  raw : document = none → c.document = none
  place : ∀ d d', c.document = some d → document = some d' →
    d.projectPath = d'.projectPath ∧ d.mappingsPath = d'.mappingsPath

/-- What `stageCodeData` returns. -/
structure StagedBy (s : Repository) (c : CodeDataCandidate) : Prop where
  owner : c.owner = s.self
  revision : c.expectedRevision = s.logicalRevision
  generation : c.expectedIdentityGeneration = s.identityGeneration
  fresh : c.consumed = false
  written : Written c
  matched : Matches c s.document

/-- A document that is staged has the edited annotations, and the old paths. -/
theorem stagedDocument_matches {document candidate : Option Document} {edited : CodeData}
    (h : (document.mapM fun document => document.withCodeData edited) = Except.ok candidate) :
    (document = none → candidate = none) ∧ ∀ d d', candidate = some d → document = some d' →
      d.projectPath = d'.projectPath ∧ d.mappingsPath = d'.mappingsPath := by
  cases document with
  | none =>
    obtain rfl := Except.ok.inj h
    exact ⟨fun _ => rfl, nofun⟩
  | some document =>
    refine ⟨nofun, fun d d' hd hd' => ?_⟩
    obtain rfl := Option.some.inj hd'
    have hset : document.setCodeData edited = .ok d := by
      cases hw : document.withCodeData edited with
      | error e =>
        simp only [Option.mapM_some, hw] at h
        exact absurd h (by simp [Functor.map, Except.map])
      | ok d₁ =>
        simp only [Option.mapM_some, hw, Functor.map, Except.map] at h
        have hd₁ : some d₁ = some d := (Except.ok.inj h).trans hd
        exact Option.some.inj hd₁ ▸ hw
    exact ⟨(Document.setCodeData_ok hset).1, (Document.setCodeData_ok hset).2.1⟩

/-- What follows the check knows the revision. -/
theorem triple_checkRevision_bind {β : Type} {expected : ℤ} {f : Unit → Section β}
    {P : β → Repository → Prop}
    (hf : expected = s₀.logicalRevision → Triple bad (Untouched s₀) (f ()) P (Untouched s₀)) :
    Triple bad (Untouched s₀) (checkRevision expected >>= f) P (Untouched s₀) := by
  intro s hs
  by_cases h : expected = s.logicalRevision
  · have hok : checkRevision expected s = (.ok (), s) := by simp [checkRevision, h]
    rw [bind_ok hok]
    have hrev : s.logicalRevision = s₀.logicalRevision := by rw [hs]
    exact hf (h.trans hrev) s hs
  · have herror : checkRevision expected s = (.error .staleRevision, s) :=
      by simp [checkRevision, h]
    rw [bind_error herror]
    exact .inr hs

/-- **A candidate is staged of the project as it stands, and the project stays.** -/
theorem stageCodeData_triple {edited : CodeData} {expectedRevision : ℤ} :
    Triple bad (Untouched s₀) (stageCodeData disk edited expectedRevision)
      (fun c s => Untouched s₀ s ∧ StagedBy s₀ c) (Untouched s₀) := by
  refine triple_checkRevision_bind fun hrev => ?_
  refine triple_get_keep fun s hs => ?_
  refine triple_liftExcept_bind (fun _ _ _ ht => .inr ht) fun candidate hcandidate => ?_
  refine keeps_codeDataJson.bind fun baseline => ?_
  refine triple_liftExcept_bind (fun _ _ _ ht => .inr ht) fun next hnext => ?_
  refine (keeps_when (keeps_checkAnalysisBaselines stable_untouched)).bind fun _ => ?_
  refine triple_pure fun t ht => ⟨ht, ?_⟩
  have hmatch := stagedDocument_matches hcandidate
  have hdoc : s.document = s₀.document := by rw [hs]
  rw [hdoc] at hmatch
  exact ⟨by rw [hs], hrev, by rw [hs], rfl, hnext, hmatch.1, hmatch.2⟩

theorem keeps_checkedMappings (hI : Stable I) (mappings : Option Path) :
    Keeps bad I (checkedMappings disk mappings) := by
  cases mappings with
  | none => exact keeps_pure
  | some path => exact (keeps_checkedReference hI).bind fun _ => keeps_pure

/-- **The stage of a path keeps the project,** -/
theorem keeps_stageMappingsPath {mappings : Option Path} {expectedSessionId : JString}
    {expectedRevision : ℤ}
    (hI : Stable I) : Keeps bad I
    (stageMappingsPath disk mappings expectedSessionId expectedRevision) := by
  refine keeps_checkSession.bind fun _ => keeps_checkRevision.bind fun _ => ?_
  refine triple_get_keep fun s _ => (keeps_checkInputBaselines hI).bind fun _ => ?_
  cases s.document with
  | none => exact keeps_throw
  | some document =>
    refine (keeps_checkedMappings hI mappings).bind fun checked => ?_
    refine (keeps_when (keeps_checkAttachedMappingBaseline hI)).bind fun _ => ?_
    exact keeps_liftExcept.bind fun _ => (keeps_fingerprintOf hI).bind fun _ => keeps_pure

/-- **and so does the preparation of a reload.** -/
theorem keeps_prepareReload {discardUnsaved : Bool} {expectedSessionId : JString}
    {expectedRevision : ℤ}
    (hI : Stable I) : Keeps bad I
    (prepareReload disk discardUnsaved expectedSessionId expectedRevision) := by
  refine keeps_checkSession.bind fun _ => keeps_checkRevision.bind fun _ => ?_
  refine triple_get_keep fun s _ => ?_
  cases s.currentPath with
  | none => exact keeps_throw
  | some path =>
    refine keeps_dirty.bind fun dirty => (keeps_when keeps_throw).bind fun _ => ?_
    refine (keeps_fingerprintOf hI).bind fun _ => (keeps_reading hI).bind fun reopened => ?_
    refine (keeps_fingerprintOf hI).bind fun _ => (keeps_when keeps_throw).bind fun _ => ?_
    refine (keeps_checkedReferences hI _).bind fun _ => (keeps_when keeps_throw).bind fun _ => ?_
    refine (keeps_checkedReferences hI _).bind fun _ => (keeps_fingerprintOf hI).bind fun _ => ?_
    exact (keeps_fingerprintInputs hI).bind fun _ => keeps_pure

/-! ## Receipts -/

/-- What `snapshot()` returns where the code data is written as `json`. -/
def shown (s : Repository) (json : CodeDataJson) : ProjectSnapshot :=
  ⟨s.currentPath, s.inputs, s.savedCodeData ≠ json || s.savedMappingsPath ≠ s.mappingsPath,
    ⟨s.sessionId, s.logicalRevision, s.indexRevision, s.persistedIdentity, s.persistedIdentityState⟩⟩

/-- The annotations are read without a change. -/
theorem codeDataJson_run (s : Repository) : codeDataJson s = (s.codeDataJson, s) := by
  unfold codeDataJson
  rw [bind_get]
  cases s.codeDataJson with
  | ok json => rfl
  | error e => rfl

/-- A snapshot shows the state, and leaves it, -/
theorem snapshot_run {json : CodeDataJson} (h : s.codeDataJson = .ok json) :
    snapshot s = (.ok (shown s json), s) := by
  have hjson : codeDataJson s = (.ok json, s) := by rw [codeDataJson_run, h]
  have hdirty : dirty s = (.ok (s.savedCodeData ≠ json || s.savedMappingsPath ≠ s.mappingsPath), s) := by
    unfold dirty
    rw [bind_ok hjson]
    rfl
  unfold snapshot
  rw [bind_ok hdirty]
  rfl

/-- or fails for the annotations alone. -/
theorem snapshot_error {e : Throwable} (h : s.codeDataJson = .error e) :
    snapshot s = (.error e, s) := by
  have hjson : codeDataJson s = (.error e, s) := by rw [codeDataJson_run, h]
  have hdirty : dirty s = (.error e, s) := by
    unfold dirty
    rw [bind_error hjson]
  unfold snapshot
  rw [bind_error hdirty]

/-- `snapshot()` changes nothing, and says the same the next time. -/
theorem triple_snapshot (herr : ∀ s, I s → Broken s → bad Entry.notAnObject ∨ E s) :
    Triple bad I snapshot (fun p s => I s ∧ ∃ json, s.codeDataJson = .ok json ∧
      p = shown s json) E := by
  intro s hs
  cases hj : s.codeDataJson with
  | ok json =>
    rw [snapshot_run hj]
    exact ⟨hs, json, hj, rfl⟩
  | error e =>
    rw [snapshot_error hj]
    have he : e = Entry.notAnObject := Repository.codeDataJson_error hj
    exact he ▸ herr s hs ⟨e, hj⟩

/-- What follows `codeDataJson()` knows the text. -/
theorem triple_codeDataJson_bind {β : Type} {f : CodeDataJson → Section β}
    {P : β → Repository → Prop}
    (herr : ∀ s, I s → Broken s → bad Entry.notAnObject ∨ E s)
    (hf : ∀ json, Triple bad (fun s => I s ∧ s.codeDataJson = .ok json) (f json) P E) :
    Triple bad I (codeDataJson >>= f) P E := by
  intro s hs
  cases hj : s.codeDataJson with
  | ok json =>
    have hrun : codeDataJson s = (.ok json, s) := by rw [codeDataJson_run, hj]
    rw [bind_ok hrun]
    exact hf json s ⟨hs, hj⟩
  | error e =>
    have hrun : codeDataJson s = (.error e, s) := by rw [codeDataJson_run, hj]
    have he : e = Entry.notAnObject := Repository.codeDataJson_error hj
    rw [bind_error hrun]
    exact he ▸ herr s hs ⟨e, hj⟩

/-! ## Identity -/

/-- `I` says nothing about the persisted identity, nor about how often the disk was used. -/
def Unidentified (I : Repository → Prop) : Prop :=
  ∀ s n identity state, I s →
    I { s with reads := n, persistedIdentity := identity, persistedIdentityState := state }

/-- The identity is computed, or the state goes on without. -/
theorem triple_identifying {α : Type} {answer : ℕ → Except DiskFailure α} (hI : Unidentified I)
    (herr : ∀ s, I s → bad .error ∨ E s) : Triple bad I (identifying answer) (fun _ => I) E := by
  refine triple_get_keep fun s _ => ?_
  have hcount : Triple bad I (modify fun s => { s with reads := s.reads + 1 }) (fun _ => I) E :=
    triple_modify fun t ht => hI t _ _ _ ht
  have hfailed : Triple bad I (do
      modify fun s => { s with persistedIdentity := none, persistedIdentityState := .FAILED }
      pure (none : Option α)) (fun _ => I) E := by
    have hstate : Triple bad I (modify fun s =>
        { s with persistedIdentity := none, persistedIdentityState := .FAILED })
        (fun _ => I) E := triple_modify fun t ht => hI t t.reads _ _ ht
    exact hstate.bind fun _ => triple_pure fun _ ht => ht
  refine hcount.bind fun _ => ?_
  cases answer s.reads with
  | ok a => exact triple_pure fun _ ht => ht
  | error failure =>
    cases failure with
    | error => exact triple_throw herr
    | io => exact hfailed
    | noSuchFile => exact hfailed

/-- `refreshIdentity()` takes a new generation. -/
theorem triple_refreshIdentity {R : Repository → Prop} (hR : Unidentified R)
    (herr : ∀ s, R s → bad .error ∨ E s)
    (hIR : ∀ s, I s → R { s with identityGeneration := s.identityGeneration + 1 }) :
    Triple bad I (refreshIdentity disk) (fun _ => R) E := by
  have hnext : Triple bad I (modify fun s => { s with identityGeneration := s.identityGeneration + 1 })
      (fun _ => R) E := triple_modify hIR
  refine hnext.bind fun _ => triple_get_keep fun s _ => ?_
  refine (triple_identifying hR herr).bind fun totalBytes => ?_
  cases totalBytes with
  | none => exact triple_pure fun _ ht => ht
  | some total =>
    refine triple_ite (fun _ => ?_) fun _ => triple_modify fun t ht => hR t t.reads _ _ ht
    refine (triple_identifying hR herr).bind fun identity => ?_
    cases identity with
    | none => exact triple_pure fun _ ht => ht
    | some identity => exact triple_modify fun t ht => hR t t.reads _ _ ht

/-! ## Publishing -/

/-- How a publishing call may end in an error: untouched, or, where the error is a late one, in
any state that follows. -/
structure Ending (s₀ : Repository) (bad : Throwable → Prop) (E : Repository → Prop) : Prop where
  untouched : ∀ s, Untouched s₀ s → E s
  late : ∀ e s, unread e ∨ e = Entry.notAnObject → Follows s₀ s → bad e ∨ E s

/-- A refused call leaves the repository untouched. -/
theorem ending_refusal (s₀ : Repository) :
    Ending s₀ (fun e => refusal e = false) (Untouched s₀) := by
  refine ⟨fun _ h => h, fun e s he _ => .inl ?_⟩
  obtain (rfl | rfl | rfl) | rfl := he
  · rfl
  · rfl
  · rfl
  · decide

/-- Any call leaves a repository that follows. -/
theorem ending_follows (s₀ : Repository) : Ending s₀ (fun _ => False) (Follows s₀) :=
  ⟨fun _ h => h.follows, fun _ _ _ h => .inr h⟩

/-- How a publishing call returns: `step` added to both revisions, and the receipt is what the
repository now shows. -/
structure Settled (s₀ : Repository) (step : ℤ) (p : ProjectSnapshot) (t : Repository) : Prop where
  follows : Follows s₀ t
  logicalRevision : t.logicalRevision = s₀.logicalRevision + step
  indexRevision : t.indexRevision = s₀.indexRevision + step
  receipt : snapshot t = (.ok p, t)

variable (hend : Ending s₀ bad E)
include hend

/-- **A path is committed with one more revision, or with none where nothing changes.** -/
theorem commitMappingsPath_triple (c : MappingCandidate) :
    Triple bad (Untouched s₀) (commitMappingsPath disk c)
      (fun p t => Settled s₀ (if s₀.mappingsPath = c.path then 0 else 1) p t) E := by
  refine (keeps_checkRevision.to hend.untouched).bind fun _ => ?_
  refine triple_get_keep fun s hs => ?_
  refine ((keeps_checkInputBaselines stable_untouched).to hend.untouched).bind fun _ => ?_
  refine ((keeps_fingerprintOf stable_untouched).to hend.untouched).bind fun _ => ?_
  refine ((keeps_when keeps_throw).to hend.untouched).bind fun _ => ?_
  have hpath : s.mappingsPath = s₀.mappingsPath := by rw [hs]; rfl
  rw [hpath]
  -- the two revisions move together, and the generation stays
  let R : Repository → Prop := fun t => Follows s₀ t ∧
    t.logicalRevision = s₀.logicalRevision + (if s₀.mappingsPath = c.path then 0 else 1) ∧
    t.indexRevision = s₀.indexRevision + (if s₀.mappingsPath = c.path then 0 else 1)
  have hattach : Triple bad (Untouched s₀) (when (s₀.mappingsPath ≠ c.path) (modify (attach c)))
      (fun _ => R) E := by
    refine triple_when (fun h => triple_modify fun t ht => ?_) fun h t ht => ?_
    · have hne : ¬ s₀.mappingsPath = c.path := by simpa using h
      simp only [R, if_neg hne]
      rw [ht]
      exact ⟨.of_revision rfl (Int.lt_succ _) le_rfl, rfl, rfl⟩
    · have heq : s₀.mappingsPath = c.path := by simpa using h
      have hf := ht.follows
      simp only [R, if_pos heq]
      rw [ht] at hf ⊢
      exact ⟨hf, (Int.add_zero _).symm, (Int.add_zero _).symm⟩
  refine hattach.bind fun _ => ?_
  refine (triple_snapshot fun t ht _ => hend.late _ t (.inr rfl) ht.1).weaken (fun _ h => h)
    (fun p t ht => ?_)
    fun _ h => h
  obtain ⟨⟨hf, hl, hx⟩, json, hj, rfl⟩ := ht
  exact ⟨hf, hl, hx, snapshot_run hj⟩

/-! ## Reload -/

omit hend in
theorem keeps_checkReload {c : ReloadCandidate} (hI : Stable I) :
    Keeps bad I (checkReload disk c) := by
  refine keeps_checkRevision.bind fun _ => (keeps_checkInputBaselines hI).bind fun _ => ?_
  refine (keeps_fingerprintOf hI).bind fun _ => triple_ite (fun _ => keeps_throw) fun _ => ?_
  exact (keeps_fingerprintOf hI).bind fun _ => keeps_when keeps_throw

/-- **A reload is committed with one more revision, and nothing is unsaved.** -/
theorem commitReload_triple (c : ReloadCandidate) :
    Triple bad (Untouched s₀) (commitReload disk c)
      (fun p t => Settled s₀ 1 p t ∧ p.dirty = false) E := by
  refine ((keeps_checkReload stable_untouched).to hend.untouched).bind fun _ => ?_
  -- the document is in place, but the revisions are not moved yet
  let Reopened : Repository → Prop := fun t => t.self = s₀.self ∧
    t.logicalRevision = s₀.logicalRevision ∧
    t.indexRevision = s₀.indexRevision ∧ t.savedMappingsPath = t.mappingsPath
  have hopen : Triple bad (Untouched s₀) (modify (reopen c))
      (fun _ t => Reopened t ∧ t.identityGeneration = s₀.identityGeneration) E := by
    refine triple_modify fun t ht => ?_
    rw [ht]
    exact ⟨⟨rfl, rfl, rfl, rfl⟩, rfl⟩
  refine hopen.bind fun _ => triple_codeDataJson_bind (fun t ht hbroken => ?_) fun json => ?_
  · obtain ⟨⟨hself, hrev, -, -⟩, hgen⟩ := ht
    exact hend.late _ t (.inr rfl) ⟨hself, hrev.ge, hgen.ge, fun _ _ => .inr (.inr hbroken)⟩
  -- from here on the saved text is the document's
  let Saved : Repository → Prop := fun t => Reopened t ∧ t.codeDataJson = .ok t.savedCodeData
  have hsaved : Triple bad (fun t => (Reopened t ∧ t.identityGeneration = s₀.identityGeneration) ∧
      t.codeDataJson = .ok json)
      (modify fun s => { s with savedCodeData := json })
      (fun _ t => Saved t ∧ t.identityGeneration = s₀.identityGeneration) E :=
    triple_modify fun t ht => ⟨⟨ht.1.1, ht.2⟩, ht.1.2⟩
  refine hsaved.bind fun _ => ?_
  have hrefresh : Triple bad (fun t => Saved t ∧ t.identityGeneration = s₀.identityGeneration)
      (refreshIdentity disk) (fun _ t => Saved t ∧ t.identityGeneration = s₀.identityGeneration + 1) E := by
    refine triple_refreshIdentity (fun _ _ _ _ ht => ht) (fun t ht => ?_) fun t ht => ?_
    · obtain ⟨⟨⟨hself, hrev, -, -⟩, -⟩, hgen⟩ := ht
      exact hend.late _ t (.inl (.inr (.inr rfl))) (.of_generation hself hrev.ge (by omega))
    · exact ⟨ht.1, congrArg (· + 1) ht.2⟩
  refine hrefresh.bind fun _ => ?_
  have hnext : Triple bad (fun t => Saved t ∧ t.identityGeneration = s₀.identityGeneration + 1)
      (modify fun s => { s with logicalRevision := s.logicalRevision + 1, indexRevision := s.indexRevision + 1 })
      (fun _ t => Follows s₀ t ∧ t.logicalRevision = s₀.logicalRevision + 1 ∧
        t.indexRevision = s₀.indexRevision + 1 ∧
        t.savedMappingsPath = t.mappingsPath ∧ t.codeDataJson = .ok t.savedCodeData) E := by
    refine triple_modify fun t ht => ?_
    obtain ⟨⟨⟨hself, hrev, hindex, hmap⟩, hjson⟩, hgen⟩ := ht
    refine ⟨.of_generation hself ?_ ?_, congrArg (· + 1) hrev, congrArg (· + 1) hindex, hmap, hjson⟩
    · show s₀.logicalRevision ≤ t.logicalRevision + 1
      omega
    · show s₀.identityGeneration < t.identityGeneration
      omega
  refine hnext.bind fun _ => ?_
  refine (triple_snapshot fun t ht _ => hend.late _ t (.inr rfl) ht.1).weaken (fun _ h => h)
    (fun p t ht => ?_)
    fun _ h => h
  obtain ⟨⟨hf, hl, hx, hmap, hsavedjson⟩, json', hj, rfl⟩ := ht
  refine ⟨⟨hf, hl, hx, snapshot_run hj⟩, ?_⟩
  have hjson : json' = t.savedCodeData := Except.ok.inj (hj.symm.trans hsavedjson)
  simp [shown, hjson, hmap]

/-! ## Save -/

section

omit hend

/-- The check of what was saved keeps the project. -/
theorem keeps_checkSaved {target : Path} (hI : Stable I) :
    Keeps bad I (checkSaved disk target) := by
  refine triple_get_keep fun s _ => (keeps_checkUnchanged hI).bind fun _ =>
    (keeps_checkUnchanged hI).bind fun _ => ?_
  have hstaged : Keeps bad I (checkStagedMapping disk s.mappingsPath s.stagedMappingBaseline) := by
    cases s.stagedMappingBaseline with
    | none => exact keeps_pure
    | some expected => exact keeps_checkUnchanged hI
  have hreferences : Keeps bad I (checkReferences disk s.inputs s.document) := by
    cases s.document with
    | none => exact keeps_pure
    | some document =>
      refine (keeps_checkedReferences hI _).bind fun _ => (keeps_when keeps_throw).bind fun _ => ?_
      exact (keeps_checkedReferences hI _).bind fun _ => keeps_pure
  have hunused : Keeps bad I (checkUnused disk target s.currentPath) := by
    cases s.currentPath with
    | some path => exact keeps_pure
    | none => exact (keeps_reading hI).bind fun _ => keeps_when keeps_throw
  exact hstaged.bind fun _ => hreferences.bind fun _ => hunused

/-- So does that of what the caller expects. -/
theorem keeps_checkExpected (expectedSessionId : JString) (expectedRevision : Option ℤ) :
    Keeps bad I (checkExpected expectedSessionId expectedRevision) := by
  cases expectedRevision with
  | none => exact keeps_pure
  | some expected => exact keeps_checkSession.bind fun _ => keeps_checkRevision

/-- Once saved, the project's mapping file is that of the written document. -/
theorem documentToSave_mappings {target : Path} {d toSave : Document}
    (h : documentToSave target s = .ok d)
    (htree : d.toJsonTree = .ok toSave) :
    (s.document.or (some toSave)).bind Document.mappingsPath = toSave.mappingsPath := by
  cases hdoc : s.document with
  | none => rfl
  | some document =>
    simp only [documentToSave, hdoc] at h
    have hrebased := Document.rebasedTo_ok h
    have htreed := (Document.toJsonTree_ok htree).2
    exact (htreed.trans hrebased).symm

end

/-- **What is saved is accepted under the revision there was.** -/
theorem acceptSaved_triple {target : Path} {toSave : Document}
    (hmap : (s₀.document.or (some toSave)).bind Document.mappingsPath = toSave.mappingsPath) :
    Triple bad (Untouched s₀) (acceptSaved disk target toSave)
      (fun p t => Settled s₀ 0 p t ∧ p.dirty = false) E := by
  -- the first save has made the document, but the generation is not moved yet
  let Made : Repository → Prop := fun t => t.self = s₀.self ∧
    t.logicalRevision = s₀.logicalRevision ∧
    t.indexRevision = s₀.indexRevision ∧ t.identityGeneration = s₀.identityGeneration ∧
    (t.document = s₀.document ∨ s₀.document = none) ∧ t.mappingsPath = toSave.mappingsPath
  have hmade : ∀ t, Made t → Follows s₀ t := by
    intro t ⟨hself, hrev, _, hgen, hdoc, _⟩
    exact ⟨hself, hrev.ge, hgen.ge, fun _ _ => hdoc.imp_right .inl⟩
  have hmake : Triple bad (Untouched s₀) (modify fun s =>
      { s with document := s.document.or (some toSave) })
      (fun _ => Made) E := by
    refine triple_modify fun t ht => ?_
    rw [ht]
    refine ⟨rfl, rfl, rfl, rfl, ?_, hmap⟩
    cases hdoc : s₀.document with
    | none => exact .inr rfl
    | some document => exact .inl (by simp)
  have hunread : ∀ e, unread e → ∀ t, Made t → bad e ∨ E t := fun e he t ht =>
    hend.late e t (.inl he) (hmade t ht)
  refine hmake.bind fun _ => (triple_fingerprintOf (fun _ _ ht => ht) hunread).bind
    fun project => ?_
  have hproject : Triple bad Made (modify fun s => { s with projectBaseline := project })
      (fun _ => Made) E :=
    triple_modify fun _ ht => ht
  refine hproject.bind fun _ => (triple_fingerprintOf (fun _ _ ht => ht) hunread).bind
    fun mapping => ?_
  have hmapping : Triple bad Made (modify fun s => { s with
      mappingBaseline := mapping, baselineMappingsPath := toSave.mappingsPath
      savedMappingsPath := toSave.mappingsPath, stagedMappingBaseline := none })
      (fun _ t => Made t ∧ t.savedMappingsPath = t.mappingsPath) E := by
    refine triple_modify fun t ht => ⟨ht, ?_⟩
    exact ht.2.2.2.2.2.symm
  refine hmapping.bind fun _ => triple_codeDataJson_bind (fun t ht _ =>
    hend.late _ t (.inr rfl) (hmade t ht.1)) fun json => ?_
  have hsaved : Triple bad (fun t => (Made t ∧ t.savedMappingsPath = t.mappingsPath) ∧
      t.codeDataJson = .ok json)
      (modify fun s => { s with savedCodeData := json })
      (fun _ t => Made t ∧ t.savedMappingsPath = t.mappingsPath ∧
          t.codeDataJson = .ok t.savedCodeData) E :=
    triple_modify fun t ht => ⟨ht.1.1, ht.1.2, ht.2⟩
  refine hsaved.bind fun _ => ?_
  let Saved : Repository → Prop := fun t => t.self = s₀.self ∧
    t.logicalRevision = s₀.logicalRevision ∧
    t.indexRevision = s₀.indexRevision ∧ t.identityGeneration = s₀.identityGeneration + 1 ∧
    t.savedMappingsPath = t.mappingsPath ∧ t.codeDataJson = .ok t.savedCodeData
  have hsavedf : ∀ t, Saved t → Follows s₀ t := by
    intro t ⟨hself, hrev, _, hgen, _⟩
    exact .of_generation hself hrev.ge (by omega)
  have hrefresh : Triple bad
      (fun t => Made t ∧ t.savedMappingsPath = t.mappingsPath ∧ t.codeDataJson = .ok t.savedCodeData)
      (refreshIdentity disk) (fun _ => Saved) E := by
    refine triple_refreshIdentity (fun _ _ _ _ ht => ht) (fun t ht => ?_) fun t ht => ?_
    · exact hend.late _ t (.inl (.inr (.inr rfl))) (hsavedf t ht)
    · obtain ⟨⟨hself, hrev, hindex, hgen, -, -⟩, hmapt, hjson⟩ := ht
      exact ⟨hself, hrev, hindex, congrArg (· + 1) hgen, hmapt, hjson⟩
  refine hrefresh.bind fun _ => ?_
  refine (triple_snapshot fun t ht _ => hend.late _ t (.inr rfl) (hsavedf t ht)).weaken
    (fun _ h => h)
    (fun p t ht => ?_) fun _ h => h
  obtain ⟨hs, json', hj, rfl⟩ := ht
  have hf := hsavedf t hs
  obtain ⟨-, hrev, hindex, -, hmapt, hjson⟩ := hs
  refine ⟨⟨hf, by omega, by omega, snapshot_run hj⟩, ?_⟩
  have hsame : json' = t.savedCodeData := Except.ok.inj (hj.symm.trans hjson)
  simp [shown, hsame, hmapt]

/-- **A save settles the project at the revision there was.** -/
theorem save_triple (requestedTarget : Option Path) (expectedSessionId : JString)
    (expectedRevision : Option ℤ) :
    Triple bad (Untouched s₀) (save disk requestedTarget expectedSessionId expectedRevision)
      (fun p t => Settled s₀ 0 p t ∧ p.dirty = false) E := by
  refine ((keeps_checkExpected _ _).to hend.untouched).bind fun _ => ?_
  refine triple_get_keep fun s hs => ?_
  have hlook : ∀ {α : Type} {m : Section α}, Keeps bad (Untouched s₀) m →
      Triple bad (Untouched s₀) m
      (fun _ => Untouched s₀) E := fun h => h.to hend.untouched
  refine (hlook (keeps_checkInputBaselines stable_untouched)).bind fun _ => ?_
  cases (requestedTarget.map disk.normalize).or s.currentPath with
  | none => exact triple_throw fun t ht => .inr (hend.untouched t ht)
  | some target =>
    refine (hlook (keeps_when keeps_throw)).bind fun _ =>
      (hlook (keeps_reading stable_untouched)).bind fun _ => ?_
    refine (hlook (keeps_when keeps_throw)).bind fun _ =>
      (hlook (keeps_checkSaved stable_untouched)).bind fun _ => ?_
    refine triple_liftExcept_bind (fun _ _ t ht => .inr (hend.untouched t ht)) fun d hd => ?_
    refine triple_liftExcept_bind (fun _ _ t ht => .inr (hend.untouched t ht)) fun toSave htree =>
      ?_
    refine (hlook (keeps_reading stable_untouched)).bind fun _ => acceptSaved_triple hend ?_
    have hdoc : s.document = s₀.document := by rw [hs]
    exact hdoc ▸ documentToSave_mappings hd htree

omit hend

/-! ## Code data -/

/-- What `commitCodeData` found out about an accepted candidate. -/
structure Accepted (c : CodeDataCandidate) (s : Repository) : Prop where
  owner : c.owner = s.self
  fresh : c.consumed = false
  revision : c.expectedRevision = s.logicalRevision
  generation : c.expectedIdentityGeneration = s.identityGeneration
  baseline : s.codeDataJson = .ok c.baseline

/-- **A candidate that passes is one of this project and this revision.** -/
theorem checkCandidate_triple (c : CodeDataCandidate) :
    Triple bad (Untouched s₀) (checkCandidate disk c)
    (fun _ t => Untouched s₀ t ∧ Accepted c s₀) (Untouched s₀) := by
  refine triple_get_keep fun s hs => triple_guard (fun _ _ ht => .inr ht) fun hvalid => ?_
  refine triple_checkRevision_bind fun hrev => triple_guard (fun _ _ ht => .inr ht) fun hgen => ?_
  refine triple_codeDataJson_bind (fun t ht _ => .inr ht) fun json => ?_
  refine triple_guard (fun _ _ ht => .inr ht.1) fun hbase => ?_
  have hlook : Triple bad (fun t => Untouched s₀ t ∧ t.codeDataJson = .ok json)
      (when c.effective (checkAnalysisBaselines disk)) (fun _ => Untouched s₀) (Untouched s₀) :=
    (keeps_when (keeps_checkAnalysisBaselines stable_untouched)).weaken (fun _ h => h.1)
      (fun _ _ h => h) fun _ h => h
  intro t ht
  have hself : s.self = s₀.self := by rw [hs]
  have hgens : s.identityGeneration = s₀.identityGeneration := by rw [hs]
  have hjson : s₀.codeDataJson = .ok json := by
    have h := ht.2
    rw [ht.1] at h
    exact h
  have hacc : Accepted c s₀ := by
    simp only [Bool.or_eq_false_iff, decide_eq_false_iff_not, not_not] at hvalid hgen hbase
    exact ⟨hvalid.1.trans hself, hvalid.2, hrev, hgen.trans hgens, hbase ▸ hjson⟩
  have h := hlook t ht
  rcases hr : when c.effective (checkAnalysisBaselines disk) t with ⟨e | a, t'⟩
  · rw [hr] at h
    exact h
  · rw [hr] at h
    exact ⟨h, hacc⟩

/-- Where the candidate is refused, so is the commit. -/
theorem commitCodeData_error {c : CodeDataCandidate} {e : Throwable}
    (h : checkCandidate disk c s = (.error e, t)) :
    commitCodeData disk c s = (.error e, t) := bind_error h

/-- A commit that passes installs the candidate, if it changes anything. -/
theorem commitCodeData_ok {c : CodeDataCandidate} (h : checkCandidate disk c s = (.ok (), t)) :
    commitCodeData disk c s = (.ok (receipt c t), if c.effective then install c t else t) := by
  unfold commitCodeData
  rw [bind_ok h, bind_get]
  cases c.effective with
  | true => rfl
  | false => rfl

/-- What passes leaves the project untouched, and accepted it. -/
theorem checkCandidate_ok {c : CodeDataCandidate} (h : checkCandidate disk c s = (.ok (), t)) :
    Untouched s t ∧ Accepted c s := by
  have htriple : Triple (fun _ => False) (Untouched s) (checkCandidate disk c)
      (fun _ t => Untouched s t ∧ Accepted c s) (Untouched s) := checkCandidate_triple c
  exact htriple.ok (Untouched.refl s) h

/-- What is refused leaves it untouched too. -/
theorem checkCandidate_error {c : CodeDataCandidate} {e : Throwable}
    (h : checkCandidate disk c s = (.error e, t)) : Untouched s t := by
  have htriple : Triple (fun _ => False) (Untouched s) (checkCandidate disk c)
      (fun _ t => Untouched s t ∧ Accepted c s) (Untouched s) := checkCandidate_triple c
  exact (htriple.error (Untouched.refl s) h).resolve_left id

/-- A commit of a candidate without a document, on a project that has one. -/
def Orphaned (c : CodeDataCandidate) (s : Repository) : Prop :=
  c.effective = true ∧ c.document = none ∧ s.document ≠ none

/-- An installation follows. -/
theorem install_follows (c : CodeDataCandidate) (s : Repository) : Follows s (install c s) := by
  unfold install
  split
  all_goals exact .of_revision rfl (Int.lt_succ _) le_rfl

/-- After the commit the text is the candidate's. -/
theorem install_json {c : CodeDataCandidate} (hc : Written c) (hm : Matches c s.document)
    (hd : s.document ≠ none → c.document ≠ none) : (install c s).codeDataJson = .ok c.next := by
  unfold Written at hc
  unfold install Repository.codeDataJson
  cases hs : s.document with
  | none =>
    rw [hm.raw hs] at hc
    simpa [hs] using hc
  | some document =>
    have hsome : c.document ≠ none := hd (by simp [hs])
    cases hcd : c.document with
    | none => exact absurd hcd hsome
    | some d =>
      rw [hcd] at hc
      exact hc

/-- The commit does not move the project. -/
theorem install_place {c : CodeDataCandidate} (hm : Matches c s.document)
    (hd : s.document ≠ none → c.document ≠ none) :
    (install c s).currentPath = s.currentPath ∧ (install c s).mappingsPath = s.mappingsPath := by
  unfold install Repository.currentPath Repository.mappingsPath
  cases hs : s.document with
  | none => simp
  | some document =>
    cases hcd : c.document with
    | none => exact absurd hcd (hd (by simp [hs]))
    | some d =>
      have hplace := hm.place d document hcd hs
      exact ⟨congrArg some hplace.1, hplace.2⟩

/-- The revisions move, and what a receipt shows besides them stays. -/
theorem install_rest (c : CodeDataCandidate) (s : Repository) :
    (install c s).inputs = s.inputs ∧ (install c s).savedCodeData = s.savedCodeData ∧
    (install c s).savedMappingsPath = s.savedMappingsPath ∧ (install c s).sessionId = s.sessionId ∧
    (install c s).logicalRevision = s.logicalRevision + 1 ∧
    (install c s).indexRevision = s.indexRevision + 1 ∧
    (install c s).persistedIdentity = s.persistedIdentity ∧
    (install c s).persistedIdentityState = s.persistedIdentityState := by
  unfold install
  cases s.document with
  | none => exact ⟨rfl, rfl, rfl, rfl, rfl, rfl, rfl, rfl⟩
  | some document => exact ⟨rfl, rfl, rfl, rfl, rfl, rfl, rfl, rfl⟩

/-- **The receipt of a commit is the snapshot of what it installed.** -/
theorem install_snapshot {c : CodeDataCandidate} (hc : Written c) (hm : Matches c s.document)
    (he : c.effective = true) (ho : ¬ Orphaned c s) :
    snapshot (install c s) = (.ok (receipt c s), install c s) := by
  have hd : s.document ≠ none → c.document ≠ none := fun hs hn => ho ⟨he, hn, hs⟩
  obtain ⟨hpath, hmap⟩ := install_place hm hd
  obtain ⟨hin, hsaved, hsmap, hsid, hrev, hindex, hid, hst⟩ := install_rest c s
  rw [snapshot_run (install_json hc hm hd)]
  unfold shown receipt
  rw [hpath, hmap, hin, hsaved, hsmap, hsid, hrev, hindex, hid, hst, he, if_pos rfl]

/-- An orphaned commit takes the project's document away, and its receipt still names it. -/
theorem install_orphaned {c : CodeDataCandidate} (ho : Orphaned c s) :
    snapshot (install c s) ≠ (.ok (receipt c s), install c s) := by
  obtain ⟨-, hn, hs⟩ := ho
  obtain ⟨document, hdoc⟩ := Option.ne_none_iff_exists'.1 hs
  intro h
  have hinstalled : (install c s).document = none := by
    unfold install
    rw [hdoc]
    exact hn
  have hjson : (install c s).codeDataJson = .ok (install c s).rawCodeData.toJson := by
    unfold Repository.codeDataJson
    rw [hinstalled]
    rfl
  rw [snapshot_run hjson] at h
  have hreceipt := Except.ok.inj (Prod.mk.inj h).1
  have hpath : (install c s).currentPath = s.currentPath :=
    congrArg ProjectSnapshot.projectPath hreceipt
  unfold Repository.currentPath at hpath
  rw [hinstalled, hdoc] at hpath
  exact absurd hpath (by simp)

/-! ## Calls -/

variable {staged : List Staged} {op : Operation}

/-- What a call adds to both revisions when it returns. -/
def Operation.step (staged : List Staged) (s : Repository) : Operation → ℤ
  | .commitReload _ => 1
  | .commitMappingsPath candidate => if s.mappingsPath = candidate.path then 0 else 1
  | .commitCodeData i => if (staged[i]?.any fun object => object.candidate.effective) then 1 else 0
  | _ => 0

/-- The calls that leave nothing unsaved. -/
def Operation.cleans : Operation → Bool
  | .commitReload _ | .save _ _ _ => true
  | _ => false

/-- A call is atomic and its receipt exact: refused, it leaves the repository untouched; where
it returns, both revisions moved by its step, and the receipt is the next `snapshot()`. -/
def Exact (disk : Disk) (staged : List Staged) (s : Repository) (op : Operation) : Prop :=
  match perform disk staged op s with
  | (.error e, t) => refusal e = true → Untouched s t
  | (.ok receipt, t) => t.logicalRevision = s.logicalRevision + op.step staged s ∧
      t.indexRevision = s.indexRevision + op.step staged s ∧
      ∀ p, receipt = .snapshot p → snapshot t = (.ok p, t) ∧ (op.cleans = true → p.dirty = false)

/-- A commit whose checks all pass, of an effective candidate that was staged for raw inputs, on a
project that has a document by now. -/
def OrphanedCall (disk : Disk) (staged : List Staged) (s : Repository) (op : Operation) : Prop :=
  ∃ i object, op = .commitCodeData i ∧ staged[i]? = some object ∧ Orphaned object.candidate s ∧
    (checkCandidate disk object.candidate s).1 = .ok ()

/-! ## Runs -/

/-- What a candidate object says about the repository that staged it. -/
structure Held (c : CodeDataCandidate) (s : Repository) : Prop where
  revision : c.expectedRevision ≤ s.logicalRevision
  generation : c.expectedIdentityGeneration ≤ s.identityGeneration
  matched : c.expectedRevision = s.logicalRevision →
    c.expectedIdentityGeneration = s.identityGeneration →
    Matches c s.document ∨ c.document = none ∨ Broken s

/-- A broken document is broken wherever it is kept. -/
theorem broken_document (h : Broken s) (hdoc : t.document = s.document) : Broken t := by
  obtain ⟨e, he⟩ := h
  unfold Repository.codeDataJson at he
  cases hs : s.document with
  | none => exact absurd (hs ▸ he) (by simp [Repository.codeDataText])
  | some document =>
    rw [hs] at he
    refine ⟨e, ?_⟩
    unfold Repository.codeDataJson
    rw [hdoc, hs]
    exact he

/-- **A candidate that is held stays held while the project follows.** -/
theorem Held.follows {c : CodeDataCandidate} (h : Held c s) (hf : Follows s t) : Held c t := by
  have hrev := h.revision
  have hgen := h.generation
  have hfr := hf.revision
  have hfg := hf.generation
  refine ⟨by omega, by omega, fun hr hg => ?_⟩
  have hsr : t.logicalRevision = s.logicalRevision := by omega
  have hsg : t.identityGeneration = s.identityGeneration := by omega
  have hmatch := h.matched (by omega) (by omega)
  obtain hdoc | hnone | hbroken := hf.document hsr hsg
  · obtain hm | hn | hb := hmatch
    · exact .inl (hdoc ▸ hm)
    · exact .inr (.inl hn)
    · exact .inr (.inr (broken_document hb hdoc))
  · -- the project has just got its document
    obtain hm | hn | ⟨e, he⟩ := hmatch
    · exact .inr (.inl (hm.raw hnone))
    · exact .inr (.inl hn)
    · unfold Repository.codeDataJson at he
      rw [hnone] at he
      exact absurd he (by simp [Repository.codeDataText])
  · exact .inr (.inr hbroken)

/-- An accepted effective candidate that is not orphaned matches. -/
theorem Held.accepted {c : CodeDataCandidate} (h : Held c s) (ha : Accepted c s)
    (he : c.effective = true)
    (ho : ¬ Orphaned c s) : Matches c s.document := by
  obtain hm | hn | ⟨e, hb⟩ := h.matched ha.revision ha.generation
  · exact hm
  · have hraw : s.document = none := by
      by_contra hs
      exact ho ⟨he, hn, hs⟩
    exact ⟨fun _ => hn, fun d d' _ hd' => absurd (hraw.symm.trans hd') (by simp)⟩
  · exact absurd (ha.baseline.symm.trans hb) (by simp)

/-- A candidate object: what it installs is what it says, it is of the place it was staged at, and
it was accepted there, once, or not at all. -/
structure StagedOk (object : Staged) : Prop where
  written : Written object.candidate
  origin : object.origin =
    (object.candidate.owner, object.candidate.expectedRevision,
      object.candidate.expectedIdentityGeneration)
  accepted : object.accepted = [] ∧ object.candidate.consumed = false ∨
    object.accepted = [object.origin] ∧ object.candidate.consumed = true

/-- The invariant of the runs. -/
structure Inv (w : World) : Prop where
  self : ∀ r, (w.repository r).self = r
  ok : ∀ object ∈ w.staged, StagedOk object
  held : ∀ object ∈ w.staged, Held object.candidate (w.repository object.candidate.owner)

/-- A candidate that was just staged is held. -/
theorem StagedBy.held {c : CodeDataCandidate} (h : StagedBy s c) : Held c s :=
  ⟨h.revision.le, h.generation.le, fun _ _ => .inl h.matched⟩

/-- **A commit follows, whether it passes or not.** -/
theorem commitCodeData_follows (c : CodeDataCandidate) : Follows s (commitCodeData disk c s).2 := by
  rcases hc : checkCandidate disk c s with ⟨e | ⟨⟩, t⟩
  · rw [commitCodeData_error hc]
    exact (checkCandidate_error hc).follows
  · rw [commitCodeData_ok hc]
    have ht := (checkCandidate_ok hc).1
    split
    · have hf := install_follows c t
      rw [ht] at hf ⊢
      exact ⟨hf.self, hf.revision, hf.generation, hf.document⟩
    · exact ht.follows

/-- What a commit of a staged candidate does to its project. -/
theorem perform_commit {i : ℕ} {object : Staged} (h : staged[i]? = some object) :
    perform disk staged (.commitCodeData i) s =
      ((commitCodeData disk object.candidate s).1.map Receipt.snapshot,
        (commitCodeData disk object.candidate s).2) := by
  simp only [perform, h]
  exact map_run

/-- A commit of none fails. -/
theorem perform_null {i : ℕ} (h : staged[i]? = none) :
    perform disk staged (.commitCodeData i) s = (.error .exception, s) := by
  simp only [perform, h]
  rfl

/-- Whatever a call does, the repository it leaves follows. -/
theorem perform_follows (op : Operation) : Follows s (perform disk staged op s).2 := by
  have hout : ∀ {α : Type} {m : Section α} {g : α → Receipt} {Q : α → Repository → Prop},
      Triple (fun _ => False) (Untouched s) m Q (Follows s) → (∀ a t, Q a t → Follows s t) →
      Follows s ((m >>= fun a => pure (g a)) s).2 := by
    intro α m g Q hm hQ
    rw [map_run]
    have h := hm s (Untouched.refl s)
    rcases hr : m s with ⟨e | a, t⟩
    · rw [hr] at h
      exact h.resolve_left id
    · rw [hr] at h
      exact hQ a t h
  have hkeep : ∀ t, Untouched s t → Follows s t := fun t ht => ht.follows
  cases op with
  | stageCodeData edited expectedRevision =>
    exact hout (stageCodeData_triple.weaken (fun _ h => h) (fun _ _ h => h) hkeep) fun _ t ht =>
      hkeep t ht.1
  | stageMappingsPath mappings expectedSessionId expectedRevision =>
    exact hout ((keeps_stageMappingsPath stable_untouched).to hkeep) fun _ => hkeep
  | prepareReload discardUnsaved expectedSessionId expectedRevision =>
    exact hout ((keeps_prepareReload stable_untouched).to hkeep) fun _ => hkeep
  | commitMappingsPath candidate =>
    exact hout (commitMappingsPath_triple (ending_follows s) candidate) fun _ _ ht => ht.follows
  | commitReload candidate =>
    exact hout (commitReload_triple (ending_follows s) candidate) fun _ _ ht => ht.1.follows
  | save requestedTarget expectedSessionId expectedRevision =>
    exact hout (save_triple (ending_follows s) requestedTarget expectedSessionId expectedRevision)
      fun _ _ ht => ht.1.follows
  | commitCodeData i =>
    cases hi : staged[i]? with
    | none =>
      rw [perform_null hi]
      exact (Untouched.refl s).follows
    | some object =>
      rw [perform_commit hi]
      exact commitCodeData_follows object.candidate

/-! ## The invariant -/

/-- A fingerprint that comes in follows. -/
theorem fingerprinted_follows (generation : ℤ) (computed : Option JString) :
    Follows s (fingerprinted generation computed s).2 := by
  have hs : Follows s s := (Untouched.refl s).follows
  unfold fingerprinted
  rw [bind_get]
  split
  · cases computed with
    | none => exact ⟨hs.self, hs.revision, hs.generation, fun _ _ => .inl rfl⟩
    | some identity => exact ⟨hs.self, hs.revision, hs.generation, fun _ _ => .inl rfl⟩
  · exact hs

variable {disks : RepositoryId → Disk} {w : World}

/-- Candidates keep what they say while their repository follows. -/
theorem Inv.update (h : Inv w) {r : RepositoryId} (hf : Follows (w.repository r) t) :
    Inv { w with repository := Function.update w.repository r t } := by
  have hself : ∀ r', (Function.update w.repository r t r').self = r' :=
    (Function.forall_update_iff _ fun (r' : RepositoryId) (s : Repository) => s.self = r').2
      ⟨hf.self.trans (h.self r), fun r' _ => h.self r'⟩
  refine ⟨hself, h.ok, fun object hobject => ?_⟩
  have hheld := h.held object hobject
  have hall : ∀ r', object.candidate.owner = r' →
      Held object.candidate (Function.update w.repository r t r') := by
    refine (Function.forall_update_iff _ fun (r' : RepositoryId) (s : Repository) =>
      object.candidate.owner = r' → Held object.candidate s).2 ⟨?_, ?_⟩
    · rintro rfl
      exact hheld.follows hf
    · rintro r' _ rfl
      exact hheld
  exact hall _ rfl

/-- A candidate that its repository has just staged. -/
theorem Inv.add (h : Inv w) {c : CodeDataCandidate} {r : RepositoryId}
    (hc : StagedBy (w.repository r) c) :
    Inv { w with staged := w.staged ++ [⟨c, place (w.repository r), []⟩] } := by
  have hself : c.owner = r := hc.owner.trans (h.self r)
  refine ⟨h.self, fun object hobject => ?_, fun object hobject => ?_⟩
  · obtain hold | hnew := List.mem_append.1 hobject
    · exact h.ok object hold
    · obtain rfl := List.mem_singleton.1 hnew
      refine ⟨hc.written, ?_, .inl ⟨rfl, hc.fresh⟩⟩
      unfold place
      rw [hc.owner, hc.revision, hc.generation]
  · obtain hold | hnew := List.mem_append.1 hobject
    · exact h.held object hold
    · obtain rfl := List.mem_singleton.1 hnew
      show Held c (w.repository c.owner)
      rw [hself]
      exact hc.held

/-- An accepted candidate was fresh, and is accepted where it was staged. -/
theorem Inv.consumed (h : Inv w) {i : ℕ} {object : Staged} (hi : w.staged[i]? = some object)
    {r : RepositoryId}
    (ha : Accepted object.candidate (w.repository r)) :
    Inv { w with staged := w.staged.modify i (Staged.consume (w.repository r)) } := by
  have hmem : object ∈ w.staged := List.mem_of_getElem? hi
  have hok := h.ok object hmem
  have hplace : place (w.repository r) = object.origin := by
    rw [hok.origin, ha.owner, ha.revision, ha.generation]
    rfl
  have hmodified : ∀ o ∈ w.staged.modify i (Staged.consume (w.repository r)),
      o ∈ w.staged ∨ o = object.consume (w.repository r) := by
    intro o ho
    obtain ⟨j, hj⟩ := List.mem_iff_getElem?.1 ho
    rw [List.getElem?_modify] at hj
    by_cases hij : i = j
    · subst hij
      rw [hi] at hj
      exact .inr (by simpa using hj.symm)
    · simp only [if_neg hij] at hj
      exact .inl (List.mem_of_getElem? (by simpa using hj))
  refine ⟨h.self, fun o ho => ?_, fun o ho => ?_⟩
  · obtain hold | rfl := hmodified o ho
    · exact h.ok o hold
    · refine ⟨hok.written, hok.origin, .inr ⟨?_, rfl⟩⟩
      obtain ⟨hnil, -⟩ | ⟨-, hconsumed⟩ := hok.accepted
      · show object.accepted ++ [place (w.repository r)] = [object.origin]
        rw [hnil, hplace]
        rfl
      · exact absurd (ha.fresh.symm.trans hconsumed) (by decide)
  · obtain hold | rfl := hmodified o ho
    · exact h.held o hold
    · have hheld := h.held object hmem
      exact ⟨hheld.revision, hheld.generation, fun hr hg => (hheld.matched hr hg).imp_left fun hm =>
        ⟨hm.raw, hm.place⟩⟩

/-- **Every move keeps the invariant.** -/
theorem Inv.after (h : Inv w) (move : Move) : Inv (w.after disks move) := by
  cases move with
  | fingerprinted r generation computed =>
      exact h.update (fingerprinted_follows generation computed)
  | call r op =>
    have hf : Follows (w.repository r) (perform (disks r) w.staged op (w.repository r)).2 :=
      perform_follows op
    -- what is recorded about the candidates comes first, then the repository moves
    let staged := recorded (w.repository r) w.staged op (perform (disks r) w.staged op (w.repository r)).1
    have hrecorded : Inv { w with staged := staged } := by
      unfold staged
      cases op with
      | stageCodeData edited expectedRevision =>
        have hrun : perform (disks r) w.staged (.stageCodeData edited expectedRevision)
          (w.repository r) = _ := map_run
        rw [hrun]
        have hstage : Triple (fun _ => False) (Untouched (w.repository r))
            (stageCodeData (disks r) edited expectedRevision)
            (fun c t => Untouched (w.repository r) t ∧ StagedBy (w.repository r) c)
            (Untouched (w.repository r)) := stageCodeData_triple
        rcases hr : stageCodeData (disks r) edited expectedRevision (w.repository r) with ⟨e | c, t⟩
        · exact h
        · exact h.add (hstage.ok (Untouched.refl _) hr).2
      | commitCodeData i =>
        cases hi : w.staged[i]? with
        | none =>
          rw [perform_null hi]
          exact h
        | some object =>
          rw [perform_commit hi]
          rcases hc : checkCandidate (disks r) object.candidate (w.repository r) with ⟨e | ⟨⟩, t⟩
          · rw [commitCodeData_error hc]
            exact h
          · rw [commitCodeData_ok hc]
            exact h.consumed hi (checkCandidate_ok hc).2
      | stageMappingsPath mappings expectedSessionId expectedRevision => exact h
      | commitMappingsPath candidate => exact h
      | prepareReload discardUnsaved expectedSessionId expectedRevision => exact h
      | commitReload candidate => exact h
      | save requestedTarget expectedSessionId expectedRevision => exact h
    exact hrecorded.update hf

/-- **So every reachable world has it.** -/
theorem Reachable.inv (h : Reachable disks w) : Inv w := by
  induction h with
  | opened w hself hopened hstaged =>
    refine ⟨hself, fun object hobject => ?_, fun object hobject => ?_⟩
    all_goals exact absurd (hstaged ▸ hobject) (by simp)
  | step move _ ih => exact ih.after move

/-! ## Every call -/

/-- A call of a method other than `commitCodeData` is exact where the method is. -/
theorem exact_of_triple {α : Type} {m : Section α} {g : α → Receipt} {Q : α → Repository → Prop}
    (hrun : perform disk staged op s = (m >>= fun a => pure (g a)) s)
    (hm : Triple (fun e => refusal e = false) (Untouched s) m Q (Untouched s))
    (hrev : ∀ a t, Q a t → t.logicalRevision = s.logicalRevision + op.step staged s ∧
      t.indexRevision = s.indexRevision + op.step staged s)
    (hreceipt : ∀ a t, Q a t → ∀ p, g a = .snapshot p → snapshot t = (.ok p, t) ∧
      (op.cleans = true → p.dirty = false)) : Exact disk staged s op := by
  unfold Exact
  rw [hrun, map_run]
  have h := hm s (Untouched.refl s)
  rcases hr : m s with ⟨e | a, t⟩
  · rw [hr] at h
    intro hrefused
    exact h.resolve_left fun hother => absurd (hrefused.symm.trans hother) (by decide)
  · rw [hr] at h
    exact ⟨(hrev a t h).1, (hrev a t h).2, hreceipt a t h⟩

/-- A call that only looks moves no revision. -/
theorem untouched_revisions (h : Untouched s t) :
    t.logicalRevision = s.logicalRevision + 0 ∧ t.indexRevision = s.indexRevision + 0 := by
  rw [h]
  exact ⟨(Int.add_zero _).symm, (Int.add_zero _).symm⟩

/-- A commit of a candidate is exact unless it is orphaned. -/
theorem commit_exact_iff {i : ℕ} {object : Staged} (hi : staged[i]? = some object)
    (hw : Written object.candidate)
    (hheld : object.candidate.owner = s.self → Held object.candidate s) :
    Exact disk staged s (.commitCodeData i) ↔ ¬ OrphanedCall disk staged s (.commitCodeData i) := by
  have hstep : (Operation.commitCodeData i).step staged s = if object.candidate.effective then 1
      else 0 := by
    simp only [Operation.step, hi, Option.any_some]
  unfold Exact
  rw [perform_commit hi]
  rcases hc : checkCandidate disk object.candidate s with ⟨e | ⟨⟩, t⟩
  · rw [commitCodeData_error hc]
    refine iff_of_true (fun _ => checkCandidate_error hc) ?_
    rintro ⟨j, object', hj, hobject, -, hok⟩
    obtain rfl : i = j := by injection hj
    obtain rfl : object = object' := Option.some.inj (hi.symm.trans hobject)
    exact absurd (hc ▸ hok) (by simp)
  · obtain ⟨ht, hacc⟩ := checkCandidate_ok hc
    rw [commitCodeData_ok hc]
    have horphaned : OrphanedCall disk staged s (.commitCodeData i) ↔
        Orphaned object.candidate s := by
      constructor
      · rintro ⟨j, object', hj, hobject, horphan, -⟩
        obtain rfl : i = j := by injection hj
        obtain rfl : object = object' := Option.some.inj (hi.symm.trans hobject)
        exact horphan
      · exact fun horphan => ⟨i, object, rfl, hi, horphan, by rw [hc]⟩
    have hdocument : t.document = s.document := by rw [ht]
    have horphan : Orphaned object.candidate t ↔ Orphaned object.candidate s := by
      unfold Orphaned
      rw [hdocument]
    rw [horphaned, hstep]
    cases he : object.candidate.effective with
    | false =>
      -- nothing is installed: the receipt is what the repository shows already
      have hno : ¬ Orphaned object.candidate s := fun h => absurd (he.symm.trans h.1) (by decide)
      have hjson : t.codeDataJson = .ok object.candidate.next := by
        have hsame : object.candidate.baseline = object.candidate.next := by
          simpa [CodeDataCandidate.effective] using he
        have hbase := hacc.baseline
        rw [ht, ← hsame]
        exact hbase
      have hreceipt : receipt object.candidate t = shown t object.candidate.next := by
        unfold receipt shown
        rw [he, if_neg (by decide)]
        dsimp only
        rw [Int.add_zero, Int.add_zero]
      refine iff_of_true ?_ hno
      refine ⟨(untouched_revisions ht).1, (untouched_revisions ht).2, fun p hp => ⟨?_, nofun⟩⟩
      obtain rfl : receipt object.candidate t = p := by simpa using hp
      rw [hreceipt]
      exact snapshot_run hjson
    | true =>
      simp only [if_true]
      obtain ⟨-, -, -, -, hrev, hindex, -, -⟩ := install_rest object.candidate t
      constructor
      · rintro ⟨-, -, hsnapshot⟩ ho
        exact install_orphaned (horphan.2 ho) (hsnapshot _ rfl).1
      · intro ho
        have hmatch : Matches object.candidate t.document :=
          hdocument ▸ (hheld hacc.owner).accepted hacc he ho
        refine ⟨?_, ?_, fun p hp => ⟨?_, nofun⟩⟩
        · rw [hrev, ht]
        · rw [hindex, ht]
        · obtain rfl : receipt object.candidate t = p := by simpa using hp
          exact install_snapshot hw hmatch he (mt horphan.1 ho)

/-- Every call on a repository of the run is exact unless it is an orphaned commit. -/
theorem Inv.exact_iff (h : Inv w) (r : RepositoryId) (op : Operation) :
    Exact disk w.staged (w.repository r) op ↔ ¬ OrphanedCall disk w.staged (w.repository r) op := by
  have hother : (∀ i, op ≠ .commitCodeData i) → Exact disk w.staged (w.repository r) op →
      (Exact disk w.staged (w.repository r) op ↔ ¬ OrphanedCall disk w.staged (w.repository r) op) := by
    intro hne hexact
    refine iff_of_true hexact ?_
    rintro ⟨i, _, hop, _⟩
    exact hne i hop
  have hend := ending_refusal (w.repository r)
  cases op with
  | commitCodeData i =>
    cases hi : w.staged[i]? with
    | none =>
      refine iff_of_true ?_ ?_
      · unfold Exact
        rw [perform_null hi]
        exact fun _ => Untouched.refl _
      · rintro ⟨j, object, hj, hobject, -⟩
        obtain rfl : i = j := by injection hj
        exact absurd (hi.symm.trans hobject) (by simp)
    | some object =>
      have hmem : object ∈ w.staged := List.mem_of_getElem? hi
      refine commit_exact_iff hi (h.ok object hmem).written fun howner => ?_
      have hr : object.candidate.owner = r := howner.trans (h.self r)
      exact hr ▸ h.held object hmem
  | stageCodeData edited expectedRevision =>
    refine hother (by simp) (exact_of_triple rfl stageCodeData_triple ?_ ?_)
    · exact fun _ t ht => untouched_revisions ht.1
    · exact fun _ _ _ _ hp => absurd hp (by simp)
  | stageMappingsPath mappings expectedSessionId expectedRevision =>
    refine hother (by simp) (exact_of_triple rfl (keeps_stageMappingsPath stable_untouched) ?_ ?_)
    · exact fun _ t ht => untouched_revisions ht
    · exact fun _ _ _ _ hp => absurd hp (by simp)
  | prepareReload discardUnsaved expectedSessionId expectedRevision =>
    refine hother (by simp) (exact_of_triple rfl (keeps_prepareReload stable_untouched) ?_ ?_)
    · exact fun _ t ht => untouched_revisions ht
    · exact fun _ _ _ _ hp => absurd hp (by simp)
  | commitMappingsPath candidate =>
    refine hother (by simp) (exact_of_triple rfl (commitMappingsPath_triple hend candidate) ?_ ?_)
    · exact fun _ _ ht => ⟨ht.logicalRevision, ht.indexRevision⟩
    · intro p t ht p' hp
      obtain rfl : p = p' := by simpa using hp
      exact ⟨ht.receipt, nofun⟩
  | commitReload candidate =>
    refine hother (by simp) (exact_of_triple rfl (commitReload_triple hend candidate) ?_ ?_)
    · exact fun _ _ ht => ⟨ht.1.logicalRevision, ht.1.indexRevision⟩
    · intro p t ht p' hp
      obtain rfl : p = p' := by simpa using hp
      exact ⟨ht.1.receipt, fun _ => ht.2⟩
  | save requestedTarget expectedSessionId expectedRevision =>
    refine hother (by simp) (exact_of_triple rfl
      (save_triple hend requestedTarget expectedSessionId expectedRevision) ?_ ?_)
    · exact fun _ _ ht => ⟨ht.1.logicalRevision, ht.1.indexRevision⟩
    · intro p t ht p' hp
      obtain rfl : p = p' := by simpa using hp
      exact ⟨ht.1.receipt, fun _ => ht.2⟩

/-- **In every reachable state every call is atomic and its receipt exact, unless it commits an
effective candidate of a project that was raw when it was staged and has a document now; and no
candidate is accepted but once, by the repository and at the place it was staged at.** -/
theorem operation_exact_iff (h : Reachable disks w) :
    (∀ r op, Exact (disks r) w.staged (w.repository r) op ↔
      ¬ OrphanedCall (disks r) w.staged (w.repository r) op) ∧
    ∀ object ∈ w.staged, object.accepted = [] ∨ object.accepted = [object.origin] := by
  refine ⟨fun r op => h.inv.exact_iff r op, fun object hobject => ?_⟩
  obtain ⟨hnil, -⟩ | ⟨hone, -⟩ := (h.inv.ok object hobject).accepted
  · exact .inl hnil
  · exact .inr hone

/-! A first save that writes its file and cannot read it back. -/

/-- Input `[1]`; the project file `[2]` can be written but not read. -/
def unreadableDisk : Disk where
  allowedRoots := [[0]]
  startsWith _ _ := true
  normalize path := path
  fingerprint _ path := if path = [2] then .error .io else .ok (some [])
  toRealPath _ path := .ok path
  isRegularFile _ _ := true
  isNativeTarget _ := true
  checkWritableTarget _ _ := .ok ()
  exists_ _ _ := false
  parse _ _ := .error .io
  write _ _ := .ok ()
  totalBytes _ _ := .ok 0
  identity _ _ := .ok []

def rawProject (r : RepositoryId) : Repository where
  self := r
  sessionId := []
  inputs := [[1]]
  document := none
  rawCodeData := ⟨[], []⟩
  projectBaseline := none
  mappingBaseline := none
  inputBaselines := [some []]
  stagedMappingBaseline := none
  baselineMappingsPath := none
  savedMappingsPath := none
  savedCodeData := ⟨[], []⟩
  logicalRevision := 0
  indexRevision := 0
  persistedIdentity := some []
  persistedIdentityState := .READY
  identityGeneration := 1
  reads := 0

def rawWorld : World := ⟨rawProject, []⟩

/-- An edit is staged, and the first save fails once the file is written. -/
def halfSaved : World :=
  (rawWorld.after (fun _ => unreadableDisk)
    (.call 0 (.stageCodeData ⟨[some ⟨none, none, some [97]⟩], []⟩ 0))).after
    (fun _ => unreadableDisk) (.call 0 (.save (some [2]) [] none))

theorem rawWorld_reachable : Reachable (fun _ => unreadableDisk) rawWorld :=
  .opened rawWorld (fun _ => rfl) (fun _ => ⟨rfl, ⟨rfl, rfl⟩, rfl, rfl, rfl, rfl, rfl⟩) rfl

theorem halfSaved_reachable : Reachable (fun _ => unreadableDisk) halfSaved :=
  (rawWorld_reachable.step _).step _

/-- One candidate is staged there. -/
theorem operation_exact_iff_staged : halfSaved.staged.length = 1 ∧
    (∀ r op, Exact unreadableDisk halfSaved.staged (halfSaved.repository r) op ↔
      ¬ OrphanedCall unreadableDisk halfSaved.staged (halfSaved.repository r) op) ∧
    ∀ object ∈ halfSaved.staged, object.accepted = [] ∨ object.accepted = [object.origin] :=
  ⟨by decide, operation_exact_iff halfSaved_reachable⟩

theorem halfSaved_orphaned : OrphanedCall unreadableDisk halfSaved.staged (halfSaved.repository 0)
    (.commitCodeData 0) := by
  refine ⟨0, _, rfl, rfl, ⟨?_, ?_, ?_⟩, ?_⟩
  · decide
  · rfl
  · intro h
    exact absurd (congrArg Option.isSome h) (by decide)
  · rfl

/-- The edit is then accepted, its receipt names the project file, and the project has none. -/
theorem commit_not_exact : ∃ disks w r op, Reachable disks w ∧ ¬ Exact (disks r) w.staged
    (w.repository r) op :=
  ⟨_, _, 0, .commitCodeData 0, halfSaved_reachable,
    fun h => (halfSaved_reachable.inv.exact_iff 0 (.commitCodeData 0)).1 h halfSaved_orphaned⟩

end NativeProjectRepository

end Libjadx
