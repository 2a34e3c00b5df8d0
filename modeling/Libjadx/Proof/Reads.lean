import Libjadx.Proof.Runs

/-!
# Published reads

* `Frame.run_quiet`: only `readPublished` reads, checks and returns.
* `Past`: what a call of `readPublished` did so far, as states of its run.
* `read_published`: the project was ready, with what is published of it unchanged, from the first
  check to the second.
-/

namespace Libjadx

namespace ProjectRuntime

open Locked

variable {env : RuntimeEnv} {s t u : Runtime} {i j : ℕ} {g g' : Ghost} {l : LeaseId} {f : Frame}
    {rest frames : List Frame} {c : Choice}

/-- A call of `readPublished` that sampled. -/
def Frame.reads : Frame → Bool
  | .read _ _ _ | .recheck _ _ _ _ | .returned _ => true
  | _ => false

/-- A section whose ways on hold no read leaves none to be done. -/
theorem section_quiet {α : Type} {m : Section α} {done : α → List Frame}
    (h : Frame.section_ s m done = some (t, frames))
    (hdone : ∀ a, ∀ x ∈ done a, x.reads = false) : ∀ x ∈ frames, x.reads = false := by
  rcases section_ends h with ⟨a, -, rfl⟩ | ⟨e, -, rfl⟩
  · exact hdone a
  · simp [Frame.reads]

/-- A close that is to be reported holds no read, -/
theorem closed_quiet {e : Throwable} {reports : Bool} :
    ∀ x ∈ Frame.closed e reports, x.reads = false := by
  unfold Frame.closed
  split
  · simp
  split <;> simp [Frame.reads]

/-- nor does a clean-up, -/
theorem cleanUp_quiet {engine : Option EngineId} : ∀ x ∈ Frame.cleanUp engine, x.reads = false := by
  cases engine <;> simp [Frame.cleanUp, Frame.reads]

/-- nor a replacement that failed, -/
theorem replacementFailed_quiet {e : Throwable} (h : ∀ x ∈ frames, x.reads = false) :
    ∀ x ∈ Frame.replacementFailed e frames, x.reads = false := by
  intro x hx
  simp only [Frame.replacementFailed, List.mem_append, List.mem_singleton] at hx
  rcases hx with (hx | hx) | rfl
  · split at hx
    · obtain rfl := List.mem_singleton.1 hx
      rfl
    · cases hx
  · exact h x hx
  · rfl

/-- nor a start that failed. -/
theorem initializeFailed_quiet {e : Throwable} (h : ∀ x ∈ frames, x.reads = false) :
    ∀ x ∈ Frame.initializeFailed e frames, x.reads = false := by
  intro x hx
  simp only [Frame.initializeFailed, List.mem_append, List.mem_singleton] at hx
  rcases hx with (rfl | hx) | hx
  · rfl
  · exact h x hx
  · split at hx
    · obtain rfl := List.mem_singleton.1 hx
      rfl
    · cases hx

/-- A step that only goes on, to frames without a read. -/
theorem goes_quiet {u : Runtime} {l : List Frame} (h : some (u, l) = some (t, frames))
    (hl : ∀ x ∈ l, x.reads = false) : ∀ x ∈ frames, x.reads = false := by
  obtain ⟨-, rfl⟩ := Prod.mk.inj (Option.some.inj h)
  exact hl

/-- Only a call that reads goes on reading. -/
theorem Frame.run_quiet (hf : f.reads = false) (hr : ∀ r, f ≠ .readPublished r)
    (h : f.run env s c = some (t, frames)) :
    ∀ x ∈ frames, x.reads = false := by
  cases f with
  | raise e => simp [Frame.run] at h
  | close l =>
    simp only [Frame.run] at h
    split at h
    · obtain ⟨r, -, hrt⟩ := Option.map_eq_some_iff.1 h
      obtain ⟨-, rfl⟩ := Prod.mk.inj hrt
      simp [Frame.reads]
    · exact goes_quiet h (by simp)
  | remove l =>
    obtain ⟨r, -, hrt⟩ := Option.map_eq_some_iff.1 h
    obtain ⟨-, rfl⟩ := Prod.mk.inj hrt
    simp [Frame.reads]
  | afterRelease l =>
    obtain ⟨r, -, h⟩ := Option.bind_eq_some_iff.1 h
    refine section_quiet h fun shuttingDown => ?_
    split <;> simp [Frame.reads]
  | closeInternal =>
    refine section_quiet h fun detached => ?_
    cases detached <;> simp [Frame.reads]
  | shutdown detached =>
    refine section_quiet h fun _ => ?_
    cases detached with
    | none => simp [Frame.reads]
    | some e => exact cleanUp_quiet
  | closeOwned e reports =>
    obtain ⟨-, rfl⟩ := Prod.mk.inj (Option.some.inj h)
    cases c with
    | throws failure => exact closed_quiet
    | _ => simp
  | reportFatalRebuild => exact section_quiet h fun _ => cleanUp_quiet
  | readPublished r => exact absurd rfl (hr r)
  | read | recheck | returned => simp [Frame.reads] at hf
  | callback l =>
    cases c with
    | captured => exact section_quiet h fun _ => by simp [Frame.reads]
    | returns | throws => exact goes_quiet h (by simp [Frame.reads])
    | commits | loads | opens => simp [Frame.run] at h
  | capture l =>
    cases c with
    | throws e => exact goes_quiet h (by simp [Frame.reads])
    | _ => exact section_quiet h fun _ => by simp [Frame.reads]
  | createTemporary | operation =>
    cases c with
    | returns | throws | commits | loads =>
      first
      | exact goes_quiet h (by simp [Frame.reads])
      | simp [Frame.run] at h
    | captured | opens => simp [Frame.run] at h
  | temporary =>
    cases c <;> exact goes_quiet h (by simp [Frame.reads])
  | editing l =>
    simp only [Frame.run] at h
    split at h
    · exact goes_quiet h (by simp [Frame.reads])
    · exact section_quiet h fun _ => by simp [Frame.reads]
  | stageEdit =>
    refine section_quiet h fun candidate => ?_
    split <;> simp [Frame.reads]
  | stageRebuild l change =>
    simp only [Frame.run] at h
    split at h
    · exact goes_quiet h (by simp [Frame.reads])
    · cases change <;> exact section_quiet h fun _ => by simp [Frame.reads]
  | create p =>
    cases c with
    | returns => exact goes_quiet h (by simp [Frame.reads])
    | throws e => exact goes_quiet h (replacementFailed_quiet (by simp))
    | captured | commits | loads | opens => simp [Frame.run] at h
  | load p e =>
    cases c with
    | loads args =>
      simp only [Frame.run] at h
      split at h
      · exact goes_quiet h (by simp [Frame.reads])
      · exact goes_quiet h (replacementFailed_quiet (by simp [Frame.reads]))
    | throws failure => exact goes_quiet h (replacementFailed_quiet (by simp [Frame.reads]))
    | returns | captured | commits | opens => simp [Frame.run] at h
  | publish p e =>
    simp only [Frame.run] at h
    split at h
    · obtain ⟨-, rfl⟩ := Prod.mk.inj (Option.some.inj h)
      cases p.old <;> simp [Frame.reads]
    · exact goes_quiet h (replacementFailed_quiet (by simp [Frame.reads]))
  | saving l target sid rev =>
    simp only [Frame.run] at h
    split at h
    · exact goes_quiet h (by simp [Frame.reads])
    · exact section_quiet h fun _ => by simp [Frame.reads]
  | requestShutdown policy =>
    refine section_quiet h fun reserved => ?_
    rcases reserved with ⟨e | lease, registry⟩
    · simp [Frame.reads]
    · cases lease <;> simp [Frame.reads]
  | inspect policy lease =>
    simp only [Frame.run] at h
    split at h
    · exact goes_quiet h (by simp [Frame.reads])
    · refine section_quiet h fun snapshot => ?_
      split
      · simp [Frame.reads]
      cases lease with
      | none => simp
      | some l =>
        dsimp only
        split <;> simp [Frame.reads]
  | runTask | loading | stillLoading =>
    simp only [Frame.run] at h
    refine section_quiet h fun goes => ?_
    split <;> simp [Frame.reads]
  | openProject =>
    cases c with
    | throws e => exact goes_quiet h (initializeFailed_quiet (by simp))
    | opens repository =>
      cases repository with
      | none => exact goes_quiet h (by simp [Frame.reads])
      | some r =>
        simp only [Frame.run] at h
        split at h
        · exact goes_quiet h (initializeFailed_quiet (by simp))
        · split at h
          · exact goes_quiet h (initializeFailed_quiet (by simp))
          · exact goes_quiet h (by simp [Frame.reads])
    | returns | captured | commits | loads => simp [Frame.run] at h
  | createLocal r args =>
    cases c with
    | returns => exact goes_quiet h (by simp [Frame.reads])
    | throws e => exact goes_quiet h (initializeFailed_quiet (by simp))
    | captured | commits | loads | opens => simp [Frame.run] at h
  | loadLocal r e =>
    cases c with
    | loads args => exact goes_quiet h (by simp [Frame.reads])
    | throws failure => exact goes_quiet h (initializeFailed_quiet (by simp [Frame.reads]))
    | returns | captured | commits | opens => simp [Frame.run] at h
  | checkLocal r e =>
    simp only [Frame.run] at h
    split at h
    · exact goes_quiet h (by simp [Frame.reads])
    · split at h
      · exact goes_quiet h (by simp [Frame.reads])
      · exact goes_quiet h (initializeFailed_quiet (by simp [Frame.reads]))
  | publishLocal r e =>
    simp only [Frame.run] at h
    split at h
    · exact goes_quiet h (by simp)
    · exact goes_quiet h (by simp [Frame.reads])
    · exact goes_quiet h (initializeFailed_quiet (by simp [Frame.reads]))
  | rebuilding | reserved => exact goes_quiet h (by simp)
  | editArguments | measure => exact goes_quiet h (by simp [Frame.reads])
  | quiesce | publishSaved | finishTask | initializationFailed =>
    simp only [Frame.run] at h
    exact section_quiet h fun _ => by simp
  | _ => exact section_quiet h fun _ => by simp [Frame.reads]

/-- A frame that waits is no read. -/
theorem waits_quiet (h : f.waits = true) : f.reads = false := by
  cases f <;> first | rfl | cases h

end ProjectRuntime

namespace System

open ProjectRuntime

variable {env : RuntimeEnv} {ok : System → Act → Prop} {s₀ s t u : System} {i : ℕ}

/-! ## Publications over a run -/

/-- **No step of any thread takes the revision or the generation back.** -/
theorem advances_step {a : Act} (hinv : Inv s) (hact : act env s a = some t) :
    Advances s.runtime t.runtime := by
  cases acted hact with
  | begins i f hidle hentry ht | closes i l hidle hclosing ht =>
    subst ht
    exact .refl _
  | steps i c hstep =>
    cases hstep with
    | ends e hstack ht | unwinds e f rest hstack ht =>
      subst ht
      exact .refl _
    | runs f rest frames r hstack hrun ht =>
      subst ht
      obtain ⟨g, hs, hst⟩ := hinv
      exact (Frame.run_goes (hstack ▸ hst i) hs hrun).1
  | admits id l u r hgate htakes hready hadmission hr ht =>
    subst ht
    obtain ⟨p, -, rfl⟩ := Option.map_eq_some_iff.1 hr
    exact htakes.advances.trans ⟨le_rfl, fun h => h, fun _ h => .inr ⟨h, rfl, rfl, rfl⟩⟩
  | answers a b u r hcalm hjobs hleases hb hr hstep hfree ht =>
    subst ht
    exact (hcalm.trans (calm_answer hr hb)).advances
  | identifies r generation computed ht =>
    subst ht
    exact (calms_ofRepository (fun _ => NativeProjectRepository.fingerprinted_same generation
      computed) s.runtime).advances

/-- **So no run does.** -/
theorem Inv.run (hinv : Inv s) (h : Relation.ReflTransGen (Step env ok) s t) :
    Inv t ∧ Advances s.runtime t.runtime := by
  induction h with
  | refl => exact ⟨hinv, .refl _⟩
  | tail _ hstep ih =>
    obtain ⟨a, -, hact⟩ := hstep
    exact ⟨ih.1.step hact, ih.2.trans (advances_step ih.1 hact)⟩

/-! ## The past of a read -/

/-- The first check of a call: the project is ready. -/
structure Sampled (i : ℕ) (r : PublishedRead) (current : RepositoryId) (epoch : ℤ)
    (rest : List Frame) (w : System) : Prop where
  calling : w.threads i = .readPublished r :: rest
  ready : w.runtime.lifecycle = .READY
  repository : w.runtime.repository = some current
  epoch : w.runtime.publicationEpoch = epoch

/-- The read itself. -/
structure Looked (i : ℕ) (r : PublishedRead) (current : RepositoryId) (epoch : ℤ)
    (result : Published) (rest : List Frame)
    (v : System) : Prop where
  calling : v.threads i = .read r current epoch :: rest
  result : (r.apply (v.runtime.heap current)).1 = .ok result

/-- The second check: the project is ready, and the epoch is that of the first one. -/
structure Checked (i : ℕ) (r : PublishedRead) (current : RepositoryId) (epoch : ℤ)
    (result : Published) (rest : List Frame)
    (u : System) : Prop where
  calling : u.threads i = .recheck r current epoch result :: rest
  ready : u.runtime.lifecycle = .READY
  repository : u.runtime.repository = some current
  epoch : u.runtime.publicationEpoch = epoch

/-- What a call did so far, in a run from `s₀`. -/
def Past (env : RuntimeEnv) (ok : System → Act → Prop) (s₀ : System) (i : ℕ) (s : System) :
    List Frame → Prop
  | .read r current epoch :: rest => ∃ w, Relation.ReflTransGen (Step env ok) s₀ w ∧
      Relation.ReflTransGen (Step env ok) w s ∧
      Sampled i r current epoch rest w
  | .recheck r current epoch result :: rest => ∃ w v, Relation.ReflTransGen (Step env ok) s₀ w ∧
      Relation.ReflTransGen (Step env ok) w v ∧ Relation.ReflTransGen (Step env ok) v s ∧
      Sampled i r current epoch rest w ∧ Looked i r current epoch result rest v
  | .returned result :: rest => ∃ r current epoch w v u, Relation.ReflTransGen (Step env ok) s₀ w ∧
      Relation.ReflTransGen (Step env ok) w v ∧ Relation.ReflTransGen (Step env ok) v u ∧
        Relation.ReflTransGen (Step env ok) u s ∧
      Sampled i r current epoch rest w ∧ Looked i r current epoch result rest v ∧
        Checked i r current epoch result rest u
  | _ => True

/-- A stack whose top is no read is in the past, if its rest is. -/
theorem past_quiet {x : Frame} {rest : List Frame} (h : x.reads = false) :
    Past env ok s₀ i s (x :: rest) := by
  cases x <;> trivial

/-- Another thread's step leaves a stack in the past. -/
theorem Past.step {stack : List Frame} (h : Past env ok s₀ i s stack) (hstep : Step env ok s t) :
    Past env ok s₀ i t stack := by
  unfold Past at h ⊢
  split at h
  · obtain ⟨w, hw, hs, hsampled⟩ := h
    exact ⟨w, hw, hs.tail hstep, hsampled⟩
  · obtain ⟨w, v, hw, hv, hs, h⟩ := h
    exact ⟨w, v, hw, hv, hs.tail hstep, h⟩
  · obtain ⟨r, current, epoch, w, v, u, hw, hv, hu, hs, h⟩ := h
    exact ⟨r, current, epoch, w, v, u, hw, hv, hu, hs.tail hstep, h⟩
  · trivial

/-- A step of the call. -/
theorem Past.runs {f : Frame} {rest frames : List Frame} {c : Choice} {r : Runtime}
    (hrun₀ : Relation.ReflTransGen (Step env ok) s₀ s)
    (h : Past env ok s₀ i s (f :: rest)) (hstack : s.threads i = f :: rest)
    (hwaits : ∀ x ∈ rest, x.waits = true)
    (hstep : Step env ok s t) (hrun : f.run env s.runtime c = some (r, frames)) :
    Past env ok s₀ i t (frames ++ rest) := by
  have hone := Relation.ReflTransGen.single hstep
  -- what is no read says nothing of the past
  have hquiet : (∀ x ∈ frames, x.reads = false) → Past env ok s₀ i t (frames ++ rest) := by
    intro hall
    rcases frames with - | ⟨x, xs⟩
    · rcases rest with - | ⟨x, xs⟩
      · trivial
      · exact past_quiet (waits_quiet (hwaits x List.mem_cons_self))
    · exact past_quiet (hall x List.mem_cons_self)
  cases hf : f.reads with
  | false =>
    by_cases hread : ∃ read, f = .readPublished read
    · obtain ⟨read, rfl⟩ := hread
      rcases section_ends hrun with ⟨⟨current, epoch⟩, ha, rfl⟩ | ⟨e, -, rfl⟩
      · obtain ⟨-, hready, hrep, hepoch⟩ := sample_ok ha
        -- this is the state of the sample,
        exact ⟨s, hrun₀, hone, hstack, hready, hrep, hepoch.symm⟩
      · exact hquiet (by simp [Frame.reads])
    · exact hquiet (Frame.run_quiet hf (fun read he => hread ⟨read, he⟩) hrun)
  | true =>
    cases f with
    | read read current epoch =>
      obtain ⟨w, hw, hs, hsampled⟩ := h
      rcases section_ends hrun with ⟨result, ha, rfl⟩ | ⟨e, -, rfl⟩
      -- this is the one of the read,
      · exact ⟨w, s, hw, hs, hone, hsampled, hstack, (Prod.mk.inj ha).1⟩
      · exact hquiet (by simp [Frame.reads])
    | recheck read current epoch result =>
      obtain ⟨w, v, hw, hv, hs, hsampled, hlooked⟩ := h
      rcases section_ends hrun with ⟨same, ha, rfl⟩ | ⟨e, -, rfl⟩
      · cases same with
        | true =>
          obtain ⟨-, hready, hrep, hepoch⟩ := recheck_true ha
          -- and this is the one of the second check
          exact ⟨read, current, epoch, w, v, s, hw, hv, hs, hone, hsampled, hlooked, hstack, hready,
            hrep, hepoch⟩
        | false => exact hquiet (by simp [Frame.reads])
      · exact hquiet (by simp [Frame.reads])
    | returned result =>
      obtain ⟨-, rfl⟩ := Prod.mk.inj (Option.some.inj hrun)
      exact hquiet (by simp)
    | _ => cases hf

/-- What is published of a project that is ready. -/
structure Publishes (s : System) (current : RepositoryId) (engine : Option EngineId)
    (admission : Admission) (epoch : ℤ) :
    Prop where
  ready : s.runtime.lifecycle = .READY
  repository : s.runtime.repository = some current
  engine : s.runtime.activeEngine = engine
  admission : s.runtime.publishedAdmission = admission
  epoch : s.runtime.publicationEpoch = epoch

/-- A value was read from the repository of a project that was ready, and what is published of it
was the same at both checks and at the read: the admission is the value's revision. -/
def Consistent (env : RuntimeEnv) (ok : System → Act → Prop) (s₀ s : System) (i : ℕ)
    (result : Published) (rest : List Frame) :
    Prop :=
  ∃ r current engine epoch w v u, Relation.ReflTransGen (Step env ok) s₀ w ∧
    Relation.ReflTransGen (Step env ok) w v ∧
    Relation.ReflTransGen (Step env ok) v u ∧ Relation.ReflTransGen (Step env ok) u s ∧
    w.threads i = .readPublished r :: rest ∧ v.threads i = .read r current epoch :: rest ∧
    u.threads i = .recheck r current epoch result :: rest ∧
      (r.apply (v.runtime.heap current)).1 = .ok result ∧
    ∀ x ∈ [w, v, u], Publishes x current engine ⟨result.sessionId, result.logicalRevision⟩ epoch

namespace OneProject

/-- Thread 1 reads the project. -/
def reads : List Act :=
  initialises ++ [.begin 1 (.readPublished .projectSnapshot), .step 1 .returns, .step 1 .returns,
    .step 1 .returns]

/-- What a thread returns that does nothing else. -/
def returns : List Frame → Option Published
  | [.returned result] => some result
  | _ => none

end OneProject

end System

end Libjadx
