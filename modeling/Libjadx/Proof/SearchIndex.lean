import Mathlib.Logic.Relation
import Libjadx.Spec.SearchIndex

/-!
# The search index store over a run

`generation_names_view`: the key and the generation of a view name its content, generations
never decrease, and a view holds what was published under its key. `accounting`: the byte
count, the LRU, the fragments and the statuses agree, and a `COMPLETE` answer misses nothing.
Every call has one of a few effects (`Effect`); the invariants are proved of these.
-/

namespace Libjadx

namespace SearchIndexStore

variable {maxBytes : ℕ} {s t u : SearchIndex}

/-! ## Invariants -/

/-- The redundant representations agree. -/
structure Consistent (maxBytes : ℕ) (s : SearchIndex) : Prop where
  bytes : s.retainedBytes = s.catalogBytes + Lru.weight s.lru
  catalog_fits : s.catalogBytes ≤ maxBytes
  member_lru : ∀ d, .member d ∈ s.lru ↔ d ∈ s.members
  source_lru : ∀ o, .source o ∈ s.lru ↔ o ∈ s.sources
  member_indexed : ∀ d, (∃ st, s.memberStatus.lookup d = some st ∧ st.state = .INDEXED) ↔
    d ∈ s.members
  source_indexed : ∀ o st, s.sourceStatus.lookup o = some st → st.state = .INDEXED → o ∈ s.sources
  source_retained : ∀ o ∈ s.sources, ∃ st, s.sourceStatus.lookup o = some st ∧
    (st.state = .INDEXED ∨ st.state = .FAILED_WITH_BOUNDED_DIAGNOSTIC)
  member_owners : ∀ info ∈ s.classes, info.ref.originalClassDescriptor ∈ s.memberStatus
  source_owners : ∀ info ∈ s.classes, sourceOwner s.owners info.ref.originalClassDescriptor ∈
    s.sourceStatus

/-- Every retained fragment was published under the current key. -/
structure Sourced (s : SearchIndex) : Prop where
  members : ∀ d f, s.members.lookup d = some f → ∃ key, s.key = some key ∧
    (key, .members d f) ∈ s.published
  sources : ∀ o f, s.sources.lookup o = some f → ∃ key, s.key = some key ∧
    (key, .source f) ∈ s.published

/-- What a view shows is the same. -/
structure SameView (s t : SearchIndex) : Prop where
  key : t.key = s.key
  generation : t.generation = s.generation
  classes : t.classes = s.classes
  owners : t.owners = s.owners
  members : t.members = s.members
  sources : t.sources = s.sources
  memberStatus : t.memberStatus = s.memberStatus
  sourceStatus : t.sourceStatus = s.sourceStatus
  unfinishedBuilds : t.unfinishedBuilds = s.unfinishedBuilds

theorem SameView.refl (s : SearchIndex) : SameView s s :=
  ⟨rfl, rfl, rfl, rfl, rfl, rfl, rfl, rfl, rfl⟩

theorem SameView.trans (h : SameView s t) (h' : SameView t u) : SameView s u :=
  ⟨h'.key.trans h.key, h'.generation.trans h.generation, h'.classes.trans h.classes,
    h'.owners.trans h.owners, h'.members.trans h.members, h'.sources.trans h.sources,
    h'.memberStatus.trans h.memberStatus, h'.sourceStatus.trans h.sourceStatus,
    h'.unfinishedBuilds.trans h.unfinishedBuilds⟩

/-! ## Elementary changes -/

/-- Drop a fragment and give its owner another status. -/
def drop (k : FragmentKey) (status : FragmentStatus) (s : SearchIndex) : SearchIndex :=
  setStatus k status (remove k s)

@[simp] theorem drop_generation (k : FragmentKey) (status : FragmentStatus) :
    (drop k status s).generation = s.generation := by cases k <;> rfl

@[simp] theorem drop_lru (k : FragmentKey) (status : FragmentStatus) :
    (drop k status s).lru = s.lru.erase k := by
  cases k <;> rfl

@[simp] theorem drop_retainedBytes (k : FragmentKey) (status : FragmentStatus) :
    (drop k status s).retainedBytes = s.retainedBytes - (s.lru.lookup k).getD 0 :=
  by cases k <;> rfl

@[simp] theorem drop_catalogBytes (k : FragmentKey) (status : FragmentStatus) :
    (drop k status s).catalogBytes = s.catalogBytes := by cases k <;> rfl

/-- What is dropped gives its bytes back. -/
theorem drop_bytes (h : s.retainedBytes = s.catalogBytes + Lru.weight s.lru) (k : FragmentKey)
    (status : FragmentStatus) :
    (drop k status s).retainedBytes = (drop k status s).catalogBytes + Lru.weight
    (drop k status s).lru := by
  have hw := Lru.weight_erase k s.lru
  simp only [drop_retainedBytes, drop_catalogBytes, drop_lru]
  omega

/-- The statuses of a table with one entry written. -/
theorem lookup_insert_cases {β : Type} {m : Table β} {a b : JString} {v w : β}
    (h : (m.insert a v).lookup b = some w) : (b = a ∧ w = v) ∨ (b ≠ a ∧ m.lookup b = some w) := by
  by_cases hb : b = a
  · subst hb
    rw [AList.lookup_insert] at h
    exact .inl ⟨rfl, (Option.some.inj h).symm⟩
  · rw [AList.lookup_insert_ne hb] at h
    exact .inr ⟨hb, h⟩

/-- The empty table holds nothing. -/
theorem lookup_empty_ne {β : Type} {a : JString} {v : β} :
    (∅ : Table β).lookup a ≠ some v := by simp

/-- What is left after a removal was there, under another key. -/
theorem lookup_erase_some {β : Type} {m : Table β} {a b : JString} {w : β}
    (h : (m.erase a).lookup b = some w) :
    b ≠ a ∧ m.lookup b = some w := by
  by_cases hb : b = a
  · subst hb
    rw [AList.lookup_erase] at h
    exact absurd h (by simp)
  · rw [AList.lookup_erase_ne hb] at h
    exact ⟨hb, h⟩

/-- **A dropped fragment leaves the store consistent.** -/
theorem Consistent.drop (h : Consistent maxBytes s) (k : FragmentKey) {status : FragmentStatus}
    (hst : status.state ≠ .INDEXED) : Consistent maxBytes (drop k status s) := by
  have hb := drop_bytes h.bytes k status
  cases k with
  | member d =>
    refine ⟨hb, h.catalog_fits, ?_, ?_, ?_, h.source_indexed, h.source_retained, ?_, h.source_owners⟩
    · intro a
      show _ ∈ s.lru.erase _ ↔ a ∈ s.members.erase d
      simp only [AList.mem_erase, h.member_lru, ne_eq, FragmentKey.member.injEq]
    · intro o
      show _ ∈ s.lru.erase _ ↔ o ∈ s.sources
      simp only [AList.mem_erase, h.source_lru, ne_eq, reduceCtorEq, not_false_eq_true, true_and]
    · intro a
      show (∃ st, (s.memberStatus.insert d status).lookup a = some st ∧ _) ↔ a ∈ s.members.erase d
      rw [AList.mem_erase, ← h.member_indexed]
      constructor
      · rintro ⟨st, hl, hi⟩
        obtain ⟨rfl, rfl⟩ | ⟨hne, hl⟩ := lookup_insert_cases hl
        · exact absurd hi hst
        · exact ⟨hne, st, hl, hi⟩
      · rintro ⟨hne, st, hl, hi⟩
        exact ⟨st, by rw [AList.lookup_insert_ne hne]; exact hl, hi⟩
    · intro info hinfo
      exact (AList.mem_insert _).2 (.inr (h.member_owners info hinfo))
  | source o =>
    refine ⟨hb, h.catalog_fits, ?_, ?_, h.member_indexed, ?_, ?_, h.member_owners, ?_⟩
    · intro a
      show _ ∈ s.lru.erase _ ↔ a ∈ s.members
      simp only [AList.mem_erase, h.member_lru, ne_eq, reduceCtorEq, not_false_eq_true, true_and]
    · intro a
      show _ ∈ s.lru.erase _ ↔ a ∈ s.sources.erase o
      simp only [AList.mem_erase, h.source_lru, ne_eq, FragmentKey.source.injEq]
    · intro a st hl hi
      obtain ⟨rfl, rfl⟩ | ⟨hne, hl⟩ := lookup_insert_cases hl
      · exact absurd hi hst
      · exact AList.mem_erase.2 ⟨hne, h.source_indexed a st hl hi⟩
    · intro a ha
      obtain ⟨hne, ha⟩ := AList.mem_erase.1 ha
      obtain ⟨st, hl, hst'⟩ := h.source_retained a ha
      refine ⟨st, ?_, hst'⟩
      show (s.sourceStatus.insert o status).lookup a = _
      rw [AList.lookup_insert_ne hne]
      exact hl
    · intro info hinfo
      exact (AList.mem_insert _).2 (.inr (h.source_owners info hinfo))

/-- So does a higher generation. -/
theorem Consistent.bump (h : Consistent maxBytes s) : Consistent maxBytes (bump s) :=
  ⟨h.bytes, h.catalog_fits, h.member_lru, h.source_lru, h.member_indexed, h.source_indexed,
    h.source_retained,
    h.member_owners, h.source_owners⟩

/-! ## Eviction -/

/-- One round of `evict`. -/
def evictOne (k : FragmentKey) (s : SearchIndex) : SearchIndex := bump (drop k EVICTED s)

/-- One round of the eviction. -/
theorem evict_succ (n : ℕ) (s : SearchIndex) : evict maxBytes (n + 1) s =
    if (maxBytes : ℤ) < s.retainedBytes then
      match Lru.eldest s.lru with
      | none => s
      | some oldest => evict maxBytes n (evictOne oldest s)
    else s := rfl

/-- What holds before and survives a round holds after `evict`. -/
theorem evict_induction {P : SearchIndex → Prop} (hround : ∀ k s, P s → P (evictOne k s)) (n : ℕ)
    (h : P s) : P (evict maxBytes n s) := by
  induction n generalizing s with
  | zero => exact h
  | succ n ih =>
    rw [evict_succ]
    split
    · cases hk : Lru.eldest s.lru with
      | none => exact h
      | some k => exact ih (hround k s h)
    · exact h

/-- Enough rounds bring the bytes under the budget. -/
theorem evict_bound (n : ℕ) (h : Consistent maxBytes s) (hn : s.lru.entries.length ≤ n) :
    (evict maxBytes n s).retainedBytes ≤ maxBytes := by
  induction n generalizing s with
  | zero =>
    have hl : s.lru.entries = [] := List.length_eq_zero_iff.1 (by omega)
    have hw : Lru.weight s.lru = 0 := by simp [Lru.weight, hl]
    have hb := h.bytes
    have hc := h.catalog_fits
    show s.retainedBytes ≤ maxBytes
    omega
  | succ n ih =>
    rw [evict_succ]
    split
    · cases hk : Lru.eldest s.lru with
      | none =>
        have hw := Lru.eldest_none hk
        have hb := h.bytes
        have hc := h.catalog_fits
        show s.retainedBytes ≤ maxBytes
        omega
      | some k =>
        refine ih (h.drop k (by decide)).bump ?_
        have hl := Lru.length_erase (Lru.eldest_mem hk)
        show ((SearchIndexStore.drop k EVICTED s).lru).entries.length ≤ n
        rw [drop_lru]
        omega
    · omega

/-- An eviction never takes the generation back. -/
theorem evict_generation (n : ℕ) (s : SearchIndex) :
    s.generation ≤ (evict maxBytes n s).generation := by
  refine evict_induction (P := fun t => s.generation ≤ t.generation) ?_ n le_rfl
  intro k t ht
  show s.generation ≤ (SearchIndexStore.drop k EVICTED t).generation + 1
  rw [drop_generation]
  omega

/-! ## Publication -/

/-- A fragment put back after its old copy was removed, before anything is evicted. -/
def stored (k : FragmentKey) (bytes : ℕ) (s : SearchIndex) : SearchIndex :=
  bump { s with lru := s.lru.insert k bytes, retainedBytes := s.retainedBytes + bytes }

/-- `putMembers` before its eviction. -/
def storedMembers (d : JString) (f : List SymbolInfo) (s : SearchIndex) : SearchIndex :=
  stored (.member d) (estimate f)
    (setStatus (.member d) INDEXED
      { remove (.member d) s with members := (s.members.erase d).insert d f })

/-- `putSource` before its eviction. -/
def storedSource (f : SourceFragment) (s : SearchIndex) : SearchIndex :=
  stored (.source f.ownerDescriptor) f.bytes
    (setStatus (.source f.ownerDescriptor) (sourceStatusOf f)
      { remove (.source f.ownerDescriptor) s with
        sources := (s.sources.erase f.ownerDescriptor).insert f.ownerDescriptor f })

/-- Members are stored, and then others evicted. -/
theorem putMembers_eq (d : JString) (f : List SymbolInfo) (s : SearchIndex) :
    putMembers maxBytes d f s =
    evict maxBytes (storedMembers d f s).lru.entries.length (storedMembers d f s) := rfl

/-- So are sources. -/
theorem putSource_eq (f : SourceFragment) (s : SearchIndex) : putSource maxBytes f s =
    evict maxBytes (storedSource f s).lru.entries.length (storedSource f s) := rfl

/-- A source is indexed, or failed. -/
theorem sourceStatusOf_state (f : SourceFragment) :
    (sourceStatusOf f).state = .INDEXED ∨
    (sourceStatusOf f).state = .FAILED_WITH_BOUNDED_DIAGNOSTIC := by
  unfold sourceStatusOf
  split
  · exact .inl rfl
  · exact .inr rfl

/-- What is stored takes the place of what was there, in bytes too. -/
theorem stored_bytes (h : s.retainedBytes = s.catalogBytes + Lru.weight s.lru)
    (k : FragmentKey) (n : ℕ) :
    s.retainedBytes - (s.lru.lookup k).getD 0 + n =
      s.catalogBytes + Lru.weight ((s.lru.erase k).insert k n) := by
  have hw := Lru.weight_erase k s.lru
  have hi := Lru.weight_insert k n (s.lru.erase k)
  have he : (s.lru.erase k).erase k = s.lru.erase k := by
    apply AList.ext
    show List.kerase k (s.lru.erase k).entries = (s.lru.erase k).entries
    exact List.kerase_of_notMem_keys (List.notMem_keys_kerase k s.lru.nodupKeys)
  rw [hi, he]
  omega

/-- **Stored members leave the store consistent.** -/
theorem Consistent.storedMembers (h : Consistent maxBytes s) (d : JString) (f : List SymbolInfo) :
    Consistent maxBytes (storedMembers d f s) := by
  refine ⟨stored_bytes h.bytes (.member d) (estimate f), h.catalog_fits, ?_, ?_, ?_, h.source_indexed,
    h.source_retained, ?_, h.source_owners⟩
  · intro a
    show _ ∈ (s.lru.erase _).insert _ _ ↔ a ∈ (s.members.erase d).insert d f
    simp only [AList.mem_insert, AList.mem_erase, h.member_lru, ne_eq, FragmentKey.member.injEq]
  · intro o
    show _ ∈ (s.lru.erase _).insert _ _ ↔ o ∈ s.sources
    simp only [AList.mem_insert, AList.mem_erase, h.source_lru, ne_eq, reduceCtorEq,
      not_false_eq_true, true_and,
      false_or]
  · intro a
    show (∃ st, (s.memberStatus.insert d INDEXED).lookup a = some st ∧ _) ↔
      a ∈ (s.members.erase d).insert d f
    rw [AList.mem_insert, AList.mem_erase, ← h.member_indexed]
    constructor
    · rintro ⟨st, hl, hi⟩
      obtain ⟨rfl, -⟩ | ⟨hne, hl⟩ := lookup_insert_cases hl
      · exact .inl rfl
      · exact .inr ⟨hne, st, hl, hi⟩
    · rintro (rfl | ⟨hne, st, hl, hi⟩)
      · exact ⟨INDEXED, AList.lookup_insert _, rfl⟩
      · exact ⟨st, by rw [AList.lookup_insert_ne hne]; exact hl, hi⟩
  · intro info hinfo
    exact (AList.mem_insert _).2 (.inr (h.member_owners info hinfo))

/-- **So does a stored source.** -/
theorem Consistent.storedSource (h : Consistent maxBytes s) (f : SourceFragment) :
    Consistent maxBytes (storedSource f s) := by
  refine ⟨stored_bytes h.bytes (.source f.ownerDescriptor) f.bytes, h.catalog_fits, ?_, ?_,
    h.member_indexed, ?_, ?_,
    h.member_owners, ?_⟩
  · intro d
    show _ ∈ (s.lru.erase _).insert _ _ ↔ d ∈ s.members
    simp only [AList.mem_insert, AList.mem_erase, h.member_lru, ne_eq, reduceCtorEq,
      not_false_eq_true, true_and,
      false_or]
  · intro a
    show _ ∈ (s.lru.erase _).insert _ _ ↔
      a ∈ (s.sources.erase f.ownerDescriptor).insert f.ownerDescriptor f
    simp only [AList.mem_insert, AList.mem_erase, h.source_lru, ne_eq, FragmentKey.source.injEq]
  · intro a st hl hi
    show a ∈ (s.sources.erase f.ownerDescriptor).insert f.ownerDescriptor f
    rw [AList.mem_insert, AList.mem_erase]
    obtain ⟨rfl, -⟩ | ⟨hne, hl⟩ := lookup_insert_cases hl
    · exact .inl rfl
    · exact .inr ⟨hne, h.source_indexed a st hl hi⟩
  · intro a ha
    have ha' : a ∈ (s.sources.erase f.ownerDescriptor).insert f.ownerDescriptor f := ha
    rw [AList.mem_insert, AList.mem_erase] at ha'
    show ∃ st, (s.sourceStatus.insert f.ownerDescriptor (sourceStatusOf f)).lookup a = some st ∧ _
    obtain rfl | ⟨hne, ha'⟩ := ha'
    · exact ⟨_, AList.lookup_insert _, sourceStatusOf_state f⟩
    · obtain ⟨st, hl, hst⟩ := h.source_retained a ha'
      exact ⟨st, by rw [AList.lookup_insert_ne hne]; exact hl, hst⟩
  · intro info hinfo
    exact (AList.mem_insert _).2 (.inr (h.source_owners info hinfo))

/-! ## A new catalog -/

/-- A table filled with one status. -/
theorem lookup_fill {α : Type} (f : α → JString) (status : FragmentStatus) (l : List α)
    (m : Table FragmentStatus)
    (a : JString) : (l.foldl (fun m x => m.insert (f x) status) m).lookup a =
      if a ∈ l.map f then some status else m.lookup a := by
  induction l generalizing m with
  | nil => simp
  | cons x l ih =>
    rw [List.foldl_cons, ih]
    by_cases hl : a ∈ l.map f
    · rw [if_pos hl, if_pos (by rw [List.map_cons]; exact List.mem_cons_of_mem _ hl)]
    · rw [if_neg hl]
      by_cases hx : a = f x
      · subst hx
        rw [AList.lookup_insert, if_pos (by simp)]
      · rw [AList.lookup_insert_ne hx, if_neg (by simp only [List.map_cons, List.mem_cons]; tauto)]

/-- At the start the members of every class are pending. -/
theorem initialMembers_lookup (catalog : List ClassInfo) (d : JString) :
    (initialMembers catalog).lookup d =
    if d ∈ catalog.map (fun info => info.ref.originalClassDescriptor) then some PENDING
      else none := by
  unfold initialMembers
  rw [lookup_fill (fun info : ClassInfo => info.ref.originalClassDescriptor)]
  rfl

/-- What the second pass over a catalog leaves of a table of pending owners. -/
theorem skip_pass {P : JString → Prop} {c : ClassInfo → Prop} [DecidablePred c] (l : List ClassInfo)
    (m : Table FragmentStatus) (hm : ∀ a st, m.lookup a = some st → st = PENDING ∨ st = noCode)
    (hP : ∀ a, P a → a ∈ m) :
    let m' := l.foldl (fun m info =>
      if c info then m.insert info.ref.originalClassDescriptor noCode else m) m
    (∀ a st, m'.lookup a = some st → st = PENDING ∨ st = noCode) ∧ ∀ a, P a → a ∈ m' := by
  induction l generalizing m with
  | nil => exact ⟨hm, hP⟩
  | cons x l ih =>
    simp only [List.foldl_cons]
    refine ih _ ?_ ?_
    · intro a st hl
      split at hl
      · obtain ⟨-, rfl⟩ | ⟨-, hl⟩ := lookup_insert_cases hl
        · exact .inr rfl
        · exact hm a st hl
      · exact hm a st hl
    · intro a ha
      split
      · exact (AList.mem_insert _).2 (.inr (hP a ha))
      · exact hP a ha

/-- At the start a class's source is pending, or the class has no code. -/
theorem initialSources_spec (catalog : List ClassInfo) (sourceOwners : List (JString × JString)) :
    (∀ a st, (initialSources catalog sourceOwners).lookup a = some st → st = PENDING ∨
      st = noCode) ∧
    ∀ info ∈ catalog, sourceOwner sourceOwners info.ref.originalClassDescriptor ∈
      initialSources catalog sourceOwners := by
  have hfill := fun a => lookup_fill (fun info : ClassInfo =>
    sourceOwner sourceOwners info.ref.originalClassDescriptor)
    PENDING catalog ∅ a
  have hpass := skip_pass (P := fun a => a ∈ catalog.map fun info =>
      sourceOwner sourceOwners info.ref.originalClassDescriptor)
    (c := fun info => sourceOwner sourceOwners info.ref.originalClassDescriptor =
      info.ref.originalClassDescriptor ∧
      info.codeAvailable = false) catalog
    (catalog.foldl (fun m info =>
      m.insert (sourceOwner sourceOwners info.ref.originalClassDescriptor) PENDING) ∅) ?_ ?_
  · exact ⟨hpass.1, fun info hinfo => hpass.2 _ (List.mem_map_of_mem hinfo)⟩
  · intro a st hl
    rw [hfill] at hl
    split at hl
    · exact .inl (Option.some.inj hl).symm
    · exact absurd hl (by simp)
  · intro a ha
    rw [← AList.lookup_isSome, hfill, if_pos ha]
    rfl

/-- **A catalog that fits leaves the store consistent.** -/
theorem catalogued_consistent (expected : SearchIndexKey) {catalog : List ClassInfo}
    {sourceOwners : List (JString × JString)}
    (hfit : catalogEstimate catalog sourceOwners ≤ maxBytes) :
    Consistent maxBytes (catalogued expected catalog sourceOwners s) := by
  obtain ⟨hsources, howners⟩ := initialSources_spec catalog sourceOwners
  refine ⟨?_, hfit, ?_, ?_, ?_, ?_, ?_, ?_, howners⟩
  · show ((catalogEstimate catalog sourceOwners : ℕ) : ℤ) = _ +
      ((Lru.weight (∅ : Lru FragmentKey) : ℕ) : ℤ)
    rw [Lru.weight_empty]
    rfl
  · intro d
    exact iff_of_false (AList.notMem_empty _) (AList.notMem_empty _)
  · intro o
    exact iff_of_false (AList.notMem_empty _) (AList.notMem_empty _)
  · intro d
    refine iff_of_false ?_ (AList.notMem_empty _)
    rintro ⟨st, hl, hi⟩
    have hl' : (initialMembers catalog).lookup d = some st := hl
    rw [initialMembers_lookup] at hl'
    split at hl'
    · rw [← Option.some.inj hl'] at hi
      exact absurd hi (by decide)
    · exact absurd hl' (by simp)
  · intro o st hl hi
    obtain rfl | rfl := hsources o st hl
    · exact absurd hi (by decide)
    · exact absurd hi (by simp [noCode])
  · intro o ho
    exact absurd ho (AList.notMem_empty _)
  · intro info hinfo
    have hmem : info.ref.originalClassDescriptor ∈ catalog.map fun info =>
        info.ref.originalClassDescriptor :=
      List.mem_map_of_mem (f := fun info : ClassInfo => info.ref.originalClassDescriptor) hinfo
    show _ ∈ initialMembers catalog
    rw [← AList.lookup_isSome, initialMembers_lookup, if_pos hmem]
    rfl

/-! ## What a call can do -/

/-- Fragments dropped one after the other, their owners pending again. -/
def Drops (s t : SearchIndex) : Prop :=
  Relation.ReflTransGen (fun s t => ∃ k, t = drop k PENDING s) s t

/-- The effects of a call. -/
inductive Effect (maxBytes : ℕ) (s : SearchIndex) : SearchIndex → Prop
  | idle : Effect maxBytes s s
  | catalogued (expected : SearchIndexKey) (catalog : List ClassInfo)
      (sourceOwners : List (JString × JString))
      (hfit : catalogEstimate catalog sourceOwners ≤ maxBytes) :
      Effect maxBytes s (catalogued expected catalog sourceOwners s)
  | used (expected : SearchIndexKey) (p : Publication) (k : FragmentKey) :
      Effect maxBytes s (used k (accepted expected p s))
  | members (expected : SearchIndexKey) (d : JString) (f : List SymbolInfo)
      (hkey : s.key = some expected) :
      Effect maxBytes s (putMembers maxBytes d f (accepted expected (.members d f) s))
  | source (expected : SearchIndexKey) (f : SourceFragment) (hkey : s.key = some expected) :
      Effect maxBytes s (putSource maxBytes f (accepted expected (.source f) s))
  | dropped (k : FragmentKey) (status : FragmentStatus) (hst : status.state ≠ .INDEXED) :
      Effect maxBytes s (bump (drop k status s))
  | builds (domains : Finset Domain) : Effect maxBytes s (bump { s with unfinishedBuilds := domains })
  | reset (t : SearchIndex) (h : Drops s t) : Effect maxBytes s (bump t)

/-- What is accepted is of the key the store has. -/
theorem accept_key {publication : Option SearchIndexKey} {expected : SearchIndexKey}
    (h : accept publication (some expected) s = true) : s.key = some expected := by
  simp only [accept, Bool.and_eq_true, beq_iff_eq] at h
  exact h.1.2

/-- **A mark has an effect,** -/
theorem mark_effect (inside expected : Option SearchIndexKey) (k : FragmentKey) (reason : JString) :
    Effect maxBytes s (mark inside expected k reason s).2 := by
  unfold mark
  split
  · exact .idle
  · exact .dropped k _ (by simp)

/-- **and so has the publication of members,** -/
theorem publishMembers_effect (outside inside : Option SearchIndexKey) (expected : SearchIndexKey)
    (d : JString)
    (f : List SymbolInfo) : Effect maxBytes s
    (publishMembers maxBytes outside inside expected d f s).2 := by
  unfold publishMembers
  split
  · exact .idle
  split
  · exact .idle
  rename_i hacc
  simp only [Bool.or_eq_true, Bool.not_eq_true', not_or, Bool.not_eq_false, decide_eq_true_eq] at hacc
  dsimp only
  split
  · exact .used expected _ _
  · exact .members expected d f (accept_key hacc.1)

/-- **and of a source.** -/
theorem publishSource_effect (outside inside : Option SearchIndexKey) (expected : SearchIndexKey)
    (f : SourceFragment) : Effect maxBytes s
    (publishSource maxBytes outside inside expected f s).2 := by
  unfold publishSource
  split
  · exact .idle
  split
  · exact mark_effect inside _ _ _
  split
  · exact .idle
  rename_i hacc
  simp only [Bool.or_eq_true, Bool.not_eq_true', not_or, Bool.not_eq_false, decide_eq_true_eq] at hacc
  dsimp only
  split
  · exact .used expected _ _
  · exact .source expected f (accept_key hacc.1)

/-- Reset members are dropped. -/
theorem resetMember_drops (l : List JString) (s : SearchIndex) :
    Drops s (l.foldl resetMember s) := by
  induction l generalizing s with
  | nil => exact .refl
  | cons d l ih => exact .head ⟨.member d, rfl⟩ (ih _)

/-- So are reset sources. -/
theorem resetSource_drops (l : List JString) (s : SearchIndex) :
    Drops s (l.foldl resetSource s) := by
  induction l generalizing s with
  | nil => exact .refl
  | cons o l ih =>
    rw [List.foldl_cons]
    by_cases hskip : (s.sourceStatus.lookup o).any (·.state = .SKIPPED_WITH_VERIFIED_REASON)
    · have hr : resetSource s o = s := if_pos hskip
      rw [hr]
      exact ih s
    · have hr : resetSource s o = drop (.source o) PENDING s := if_neg hskip
      rw [hr]
      exact .head ⟨.source o, rfl⟩ (ih _)

/-- **A reset of domains has an effect.** -/
theorem resetDomains_effect (inside expected : Option SearchIndexKey) (domains : List Domain) :
    Effect maxBytes s (resetDomains inside expected domains s).2 := by
  unfold resetDomains
  split
  · exact .idle
  refine .reset _ ?_
  have hm : Drops s (if .MEMBER_NAME ∈ domains then s.memberStatus.keys.foldl resetMember s
      else s) := by
    split
    · exact resetMember_drops _ s
    · exact .refl
  split
  · exact hm.trans (resetSource_drops _ _)
  · exact hm

/-- **So has every operation.** -/
theorem perform_effect (outside inside : Option SearchIndexKey) (s : SearchIndex) (op : Op) :
    Effect maxBytes s (perform maxBytes outside inside s op) := by
  cases op with
  | initializeIndex expected catalog sourceOwners =>
    show Effect maxBytes s (initializeIndex maxBytes outside inside expected catalog sourceOwners s).2
    unfold initializeIndex
    split
    · exact .idle
    split
    · exact .idle
    rename_i hfit
    split
    · exact .idle
    split
    · exact .idle
    · exact .catalogued _ _ _ (by omega)
  | publishMembers expected d f => exact publishMembers_effect outside inside expected d f
  | publishSource expected f => exact publishSource_effect outside inside expected f
  | failMembers expected d reason => exact mark_effect inside expected _ reason
  | failSource expected o reason => exact mark_effect inside expected _ reason
  | skipSource expected o reason =>
    show Effect maxBytes s (skipSource inside expected o reason s).2
    unfold skipSource
    split
    · exact .idle
    · exact .dropped _ _ (by simp)
  | beginBuild expected domains =>
    show Effect maxBytes s (beginBuild inside expected domains s).2
    unfold beginBuild
    split
    · exact .idle
    · dsimp only
      split
      · exact .idle
      · exact .builds _
  | finishBuild expected domains =>
    show Effect maxBytes s (finishBuild inside expected domains s).2
    unfold finishBuild
    split
    · exact .idle
    · dsimp only
      split
      · exact .idle
      · exact .builds _
  | resetDomains expected domains => exact resetDomains_effect inside expected domains

/-! ## What a call keeps -/

/-- What the monitor guards, at its release. -/
structure Accounted (maxBytes : ℕ) (s : SearchIndex) : Prop extends Consistent maxBytes s where
  bound : s.retainedBytes ≤ maxBytes

/-- A dropped fragment leaves the account, -/
theorem Accounted.drop (h : Accounted maxBytes s) (k : FragmentKey) {status : FragmentStatus}
    (hst : status.state ≠ .INDEXED) : Accounted maxBytes (drop k status s) := by
  refine ⟨h.toConsistent.drop k hst, ?_⟩
  have hb := h.bound
  rw [drop_retainedBytes]
  omega

/-- and so do many. -/
theorem Accounted.drops (h : Accounted maxBytes s) (hd : Drops s t) : Accounted maxBytes t := by
  induction hd with
  | refl => exact h
  | tail _ hk ih =>
    obtain ⟨k, rfl⟩ := hk
    exact ih.drop k (by decide)

/-- What is accepted leaves the store consistent, -/
theorem Consistent.accepted (h : Consistent maxBytes s) (expected : SearchIndexKey)
    (p : Publication) :
    Consistent maxBytes (accepted expected p s) :=
  ⟨h.bytes, h.catalog_fits, h.member_lru, h.source_lru, h.member_indexed, h.source_indexed,
    h.source_retained,
    h.member_owners, h.source_owners⟩

/-- as does a use, -/
theorem Consistent.used (h : Consistent maxBytes s) (k : FragmentKey) :
    Consistent maxBytes (used k s) := by
  refine ⟨?_, h.catalog_fits, ?_, ?_, h.member_indexed, h.source_indexed, h.source_retained,
    h.member_owners,
    h.source_owners⟩
  · show s.retainedBytes = s.catalogBytes + Lru.weight (Lru.touch k s.lru)
    rw [Lru.weight_touch]
    exact h.bytes
  · intro d
    exact (Lru.mem_touch k _ _).trans (h.member_lru d)
  · intro o
    exact (Lru.mem_touch k _ _).trans (h.source_lru o)

/-- and an eviction. -/
theorem Consistent.evict (h : Consistent maxBytes s) (n : ℕ) :
    Consistent maxBytes (evict maxBytes n s) :=
  evict_induction (fun k _ h => (h.drop k (by decide)).bump) n h

/-- **An effect keeps the account.** -/
theorem Effect.accounted (he : Effect maxBytes s t) (h : Accounted maxBytes s) :
    Accounted maxBytes t := by
  cases he with
  | idle => exact h
  | catalogued expected catalog sourceOwners hfit =>
    refine ⟨catalogued_consistent expected hfit, ?_⟩
    show ((catalogEstimate catalog sourceOwners : ℕ) : ℤ) ≤ maxBytes
    omega
  | used expected p k => exact ⟨(h.toConsistent.accepted expected p).used k, h.bound⟩
  | members expected d f hkey =>
    have hs := (h.toConsistent.accepted expected (.members d f)).storedMembers d f
    rw [putMembers_eq]
    exact ⟨hs.evict _, evict_bound _ hs le_rfl⟩
  | source expected f hkey =>
    have hs := (h.toConsistent.accepted expected (.source f)).storedSource f
    rw [putSource_eq]
    exact ⟨hs.evict _, evict_bound _ hs le_rfl⟩
  | dropped k status hst =>
    have hd := h.drop k hst
    exact ⟨hd.toConsistent.bump, hd.bound⟩
  | builds domains =>
    exact ⟨⟨h.bytes, h.catalog_fits, h.member_lru, h.source_lru, h.member_indexed, h.source_indexed,
      h.source_retained, h.member_owners, h.source_owners⟩, h.bound⟩
  | reset t hd =>
    have ht := h.drops hd
    exact ⟨ht.toConsistent.bump, ht.bound⟩

/-- A call that shows anything new takes a new generation. -/
theorem Effect.generation (he : Effect maxBytes s t) :
    s.generation < t.generation ∨ SameView s t := by
  cases he with
  | idle => exact .inr (.refl s)
  | catalogued => exact .inl (Nat.lt_succ_self _)
  | used => exact .inr ⟨rfl, rfl, rfl, rfl, rfl, rfl, rfl, rfl, rfl⟩
  | members expected d f hkey =>
    have hg := @evict_generation maxBytes
      (storedMembers d f (accepted expected (.members d f) s)).lru.entries.length
      (storedMembers d f (accepted expected (.members d f) s))
    exact .inl (lt_of_lt_of_le (Nat.lt_succ_self s.generation) hg)
  | source expected f hkey =>
    have hg := @evict_generation maxBytes
      (storedSource f (accepted expected (.source f) s)).lru.entries.length
      (storedSource f (accepted expected (.source f) s))
    exact .inl (lt_of_lt_of_le (Nat.lt_succ_self s.generation) hg)
  | dropped k status =>
    refine .inl ?_
    show _ < (drop k status s).generation + 1
    rw [drop_generation]
    omega
  | builds => exact .inl (Nat.lt_succ_self _)
  | reset t hd =>
    refine .inl ?_
    have hg : t.generation = s.generation := by
      induction hd with
      | refl => rfl
      | tail _ hk ih =>
        obtain ⟨k, rfl⟩ := hk
        rw [drop_generation, ih]
    show _ < t.generation + 1
    omega

/-! ## Where fragments come from -/

/-- A dropped fragment leaves the others sourced. -/
theorem Sourced.drop (h : Sourced s) (k : FragmentKey) (status : FragmentStatus) :
    Sourced (drop k status s) := by
  cases k with
  | member a => exact ⟨fun d f hl => h.members d f (lookup_erase_some hl).2, h.sources⟩
  | source a => exact ⟨h.members, fun o f hl => h.sources o f (lookup_erase_some hl).2⟩

/-- So does a higher generation, -/
theorem Sourced.bump (h : Sourced s) : Sourced (bump s) := ⟨h.members, h.sources⟩

/-- what is accepted, -/
theorem Sourced.accepted (h : Sourced s) (expected : SearchIndexKey) (p : Publication) :
    Sourced (accepted expected p s) := by
  refine ⟨fun d f hl => ?_, fun o f hl => ?_⟩
  · obtain ⟨key, hk, hp⟩ := h.members d f hl
    exact ⟨key, hk, List.mem_append_left _ hp⟩
  · obtain ⟨key, hk, hp⟩ := h.sources o f hl
    exact ⟨key, hk, List.mem_append_left _ hp⟩

/-- and an eviction. -/
theorem Sourced.evict (h : Sourced s) (n : ℕ) : Sourced (evict maxBytes n s) :=
  evict_induction (fun k _ h => (h.drop k EVICTED).bump) n h

/-- **An effect keeps the fragments sourced.** -/
theorem Effect.sourced (he : Effect maxBytes s t) (h : Sourced s) : Sourced t := by
  cases he with
  | idle => exact h
  | catalogued =>
    exact ⟨fun _ _ hl => absurd hl lookup_empty_ne, fun _ _ hl => absurd hl lookup_empty_ne⟩
  | used expected p k =>
    have ha := h.accepted expected p
    exact ⟨ha.members, ha.sources⟩
  | members expected d f hkey =>
    rw [putMembers_eq]
    have ha := h.accepted expected (.members d f)
    have hs : Sourced (storedMembers d f (accepted expected (.members d f) s)) := by
      refine ⟨fun a g hl => ?_, ha.sources⟩
      obtain ⟨rfl, rfl⟩ | ⟨hne, hl⟩ := lookup_insert_cases hl
      · exact ⟨expected, hkey, List.mem_append_right _ (List.mem_singleton.2 rfl)⟩
      · exact ha.members a g (lookup_erase_some hl).2
    exact hs.evict _
  | source expected f hkey =>
    rw [putSource_eq]
    have ha := h.accepted expected (.source f)
    have hs : Sourced (storedSource f (accepted expected (.source f) s)) := by
      refine ⟨ha.members, fun a g hl => ?_⟩
      obtain ⟨rfl, rfl⟩ | ⟨hne, hl⟩ := lookup_insert_cases hl
      · exact ⟨expected, hkey, List.mem_append_right _ (List.mem_singleton.2 rfl)⟩
      · exact ha.sources a g (lookup_erase_some hl).2
    exact hs.evict _
  | dropped k status hst => exact (h.drop k status).bump
  | builds domains => exact ⟨h.members, h.sources⟩
  | reset t hd =>
    have ht : Sourced t := by
      induction hd with
      | refl => exact h
      | tail _ hk ih =>
        obtain ⟨k, rfl⟩ := hk
        exact ih.drop k PENDING
    exact ht.bump

/-! ## Runs -/

/-- A step is an effect. -/
theorem Step.effect (h : Step maxBytes s t) : Effect maxBytes s t := by
  obtain ⟨outside, inside, op, rfl⟩ := h
  exact perform_effect outside inside s op

/-- **A later store is of a later generation, or shows the same.** -/
theorem Later.generation (h : Later maxBytes s t) : s.generation < t.generation ∨ SameView s t := by
  induction h with
  | refl => exact .inr (.refl s)
  | tail _ hstep ih =>
    have he := hstep.effect.generation
    obtain hlt | hsame := ih
    · obtain hlt' | hsame' := he
      · exact .inl (hlt.trans hlt')
      · exact .inl (by rw [hsame'.generation]; exact hlt)
    · obtain hlt' | hsame' := he
      · exact .inl (by rw [← hsame.generation]; exact hlt')
      · exact .inr (hsame.trans hsame')

/-- The empty store is accounted for. -/
theorem empty_accounted : Accounted maxBytes empty := by
  refine ⟨⟨rfl, Nat.zero_le _, ?_, ?_, ?_, ?_, ?_, ?_, ?_⟩, ?_⟩
  · intro d
    exact iff_of_false (AList.notMem_empty _) (AList.notMem_empty _)
  · intro o
    exact iff_of_false (AList.notMem_empty _) (AList.notMem_empty _)
  · intro d
    exact iff_of_false (by rintro ⟨st, hl, -⟩; exact absurd hl lookup_empty_ne)
      (AList.notMem_empty _)
  · intro o st hl
    exact absurd hl lookup_empty_ne
  · intro o ho
    exact absurd ho (AList.notMem_empty _)
  · intro info hinfo
    exact absurd hinfo List.not_mem_nil
  · intro info hinfo
    exact absurd hinfo List.not_mem_nil
  · show (0 : ℤ) ≤ maxBytes
    omega

/-- **So every reachable store is,** -/
theorem Reachable.accounted (h : Reachable maxBytes s) : Accounted maxBytes s := by
  induction h with
  | refl => exact empty_accounted
  | tail _ hstep ih => exact hstep.effect.accounted ih

/-- **and all its fragments have their sources.** -/
theorem Reachable.sourced (h : Reachable maxBytes s) : Sourced s := by
  induction h with
  | refl => exact ⟨fun _ _ hl => absurd hl lookup_empty_ne, fun _ _ hl => absurd hl lookup_empty_ne⟩
  | tail _ hstep ih => exact hstep.effect.sourced ih

/-- What a view shows. -/
theorem view_ok {inside expected : Option SearchIndexKey} {v : View}
    (h : view inside expected s = .ok v) :
    s.key = some v.key ∧ v = ⟨v.key, s.generation, s.classes, s.owners, s.members, s.sources,
      s.memberStatus,
      s.sourceStatus, s.unfinishedBuilds⟩ := by
  unfold view at h
  cases expected with
  | none => exact absurd h (by simp)
  | some key =>
    dsimp only at h
    split at h
    · exact absurd h (by simp)
    · rename_i hacc
      have hk : accept inside (some key) s = true := by simpa using hacc
      have hv := Except.ok.inj h
      subst hv
      exact ⟨accept_key hk, rfl⟩

namespace OneClass

def someKey : SearchIndexKey := ⟨str "s", 1, 0, str "f"⟩

def someClass : ClassInfo where
  ref := ⟨⟨.CLASS, str "La;", none, none, none⟩, by decide⟩
  originalDottedName := str "a"
  displayName := str "a"
  displayQualifiedName := str "a"
  isInner := false
  codeAvailable := true
  originalParent := none
  provenance := .EXACT

/-- A store with one class, then with its members. -/
def opened : SearchIndex :=
  perform 4096 (some someKey) (some someKey) empty (.initializeIndex someKey [someClass] [])

def filled : SearchIndex := perform 4096 (some someKey) (some someKey) opened
    (.publishMembers someKey (str "La;") [])

theorem opened_reachable : Reachable 4096 opened := .single ⟨_, _, _, rfl⟩

theorem filled_later : Later 4096 opened filled := .single ⟨_, _, _, rfl⟩

end OneClass

/-- **The key and the generation of a view name its content**, generations never decrease, and a
view's fragments were published under its key. -/
theorem generation_names_view (h : Reachable maxBytes s) (hst : Later maxBytes s t) :
    s.generation ≤ t.generation ∧
    (∀ p e p' e' v v', view p e s = .ok v → view p' e' t = .ok v' → v'.key = v.key →
      v'.generation = v.generation → v' = v) ∧
    (∀ p e v, view p e t = .ok v →
      (∀ d f, v.members.lookup d = some f → (v.key, .members d f) ∈ t.published) ∧
      (∀ o f, v.sources.lookup o = some f → (v.key, .source f) ∈ t.published)) := by
  have hg := hst.generation
  refine ⟨?_, ?_, ?_⟩
  · obtain hlt | hsame := hg
    · exact hlt.le
    · exact hsame.generation.ge
  · intro p e p' e' v v' hv hv' hkey hgen
    obtain ⟨hk, hv⟩ := view_ok hv
    obtain ⟨hk', hv'⟩ := view_ok hv'
    have hsame : SameView s t := by
      refine hg.resolve_left ?_
      have hvg : v.generation = s.generation := by rw [hv]
      have hvg' : v'.generation = t.generation := by rw [hv']
      omega
    rw [hv, hv', hkey, hsame.generation, hsame.classes, hsame.owners, hsame.members, hsame.sources,
      hsame.memberStatus, hsame.sourceStatus, hsame.unfinishedBuilds]
  · intro p e v hv
    obtain ⟨hk, hv⟩ := view_ok hv
    have hs : Sourced t := Reachable.sourced (h.trans hst)
    refine ⟨fun d f hl => ?_, fun o f hl => ?_⟩
    · rw [hv] at hl
      obtain ⟨key, hkey, hp⟩ := hs.members d f hl
      rw [hk] at hkey
      exact Option.some.inj hkey ▸ hp
    · rw [hv] at hl
      obtain ⟨key, hkey, hp⟩ := hs.sources o f hl
      rw [hk] at hkey
      exact Option.some.inj hkey ▸ hp

/-- One class and its members. -/
theorem generation_names_view_one : OneClass.opened.generation < OneClass.filled.generation ∧
    ∀ p e v, view p e OneClass.filled = .ok v →
      (∀ d f, v.members.lookup d = some f → (v.key, .members d f) ∈ OneClass.filled.published) ∧
      (∀ o f, v.sources.lookup o = some f → (v.key, .source f) ∈ OneClass.filled.published) :=
  ⟨by decide +kernel, (generation_names_view OneClass.opened_reachable OneClass.filled_later).2.2⟩

/-! ## Coverage -/

/-- Where none is counted in a state, none is. -/
theorem count_zero {statuses : Table FragmentStatus} {state : FragmentState}
    (h : count statuses state = 0)
    {a : JString} {st : FragmentStatus} (hl : statuses.lookup a = some st) : st.state ≠ state := by
  have hmem : (⟨a, st⟩ : Sigma fun _ : JString => FragmentStatus) ∈ statuses.entries :=
    AList.mem_lookup_iff.1 hl
  have hz := List.countP_eq_zero.1 h _ hmem
  simpa using hz

/-- **Complete coverage means that nothing is missing.** -/
theorem coverage_complete {v : View} {domain : Domain} (hd : domain ≠ .CLASS_NAME)
    (h : (v.coverageOf domain).state = .COMPLETE) : domain ∉ v.unfinishedBuilds ∧
      ∀ a st, (v.statuses domain).lookup a = some st →
        st.state = .INDEXED ∨ st.state = .SKIPPED_WITH_VERIFIED_REASON := by
  unfold View.coverageOf at h
  rw [if_neg hd] at h
  dsimp only at h
  split at h
  · rename_i hc
    refine ⟨hc.2, fun a st hl => ?_⟩
    have hp : st.state ≠ .PENDING := count_zero (by omega) hl
    have hf : st.state ≠ .FAILED_WITH_BOUNDED_DIAGNOSTIC := count_zero (by omega) hl
    have hev : st.state ≠ .EVICTED := count_zero (by omega) hl
    cases hs : st.state with
    | PENDING => exact absurd hs hp
    | INDEXED => exact .inl rfl
    | SKIPPED_WITH_VERIFIED_REASON => exact .inr rfl
    | FAILED_WITH_BOUNDED_DIAGNOSTIC => exact absurd hs hf
    | EVICTED => exact absurd hs hev
  · exact absurd h (by decide)

/-- **The byte count, the LRU, the fragments and the statuses agree after every operation, and a
`COMPLETE` coverage misses no owner.** -/
theorem accounting (h : Reachable maxBytes s) :
    s.retainedBytes = s.catalogBytes + Lru.weight s.lru ∧ s.retainedBytes ≤ maxBytes ∧
    (∀ d, .member d ∈ s.lru ↔ d ∈ s.members) ∧ (∀ o, .source o ∈ s.lru ↔ o ∈ s.sources) ∧
    (∀ d, (∃ st, s.memberStatus.lookup d = some st ∧ st.state = .INDEXED) ↔ d ∈ s.members) ∧
    (∀ o st, s.sourceStatus.lookup o = some st →
      (st.state = .INDEXED → o ∈ s.sources) ∧
      (st.state = .PENDING ∨ st.state = .SKIPPED_WITH_VERIFIED_REASON ∨ st.state = .EVICTED →
        o ∉ s.sources)) ∧
    (∀ p e v, view p e s = .ok v → ∀ domain, domain = .MEMBER_NAME ∨ domain = .SOURCE_TEXT →
      (v.coverageOf domain).state = .COMPLETE → domain ∉ v.unfinishedBuilds ∧
      ∀ info ∈ v.classes, ∃ st, (v.statuses domain).lookup (v.ownerOf domain info) = some st ∧
        (st.state = .INDEXED ∧ v.holds domain (v.ownerOf domain info) ∨
          st.state = .SKIPPED_WITH_VERIFIED_REASON)) := by
  have hs := h.accounted
  refine ⟨hs.bytes, hs.bound, hs.member_lru, hs.source_lru, hs.member_indexed, ?_, ?_⟩
  · intro o st hl
    refine ⟨hs.source_indexed o st hl, fun hst ho => ?_⟩
    obtain ⟨st', hl', hst'⟩ := hs.source_retained o ho
    rw [hl] at hl'
    obtain rfl := Option.some.inj hl'
    obtain he | he := hst' <;> rw [he] at hst <;> simp at hst
  · intro p e v hv domain hdomain hcomplete
    obtain ⟨-, hv⟩ := view_ok hv
    obtain ⟨hbuild, hst⟩ := coverage_complete (by obtain rfl | rfl := hdomain <;> decide) hcomplete
    refine ⟨hbuild, fun info hinfo => ?_⟩
    have hclass : info ∈ s.classes := by rw [hv] at hinfo; exact hinfo
    obtain rfl | rfl := hdomain
    · obtain ⟨st, hl⟩ := Option.isSome_iff_exists.1 (AList.lookup_isSome.2 (hs.member_owners info hclass))
      have hl' : (v.statuses .MEMBER_NAME).lookup (v.ownerOf .MEMBER_NAME info) = some st :=
        by rw [hv]; exact hl
      refine ⟨st, hl', (hst _ _ hl').imp_left fun hi => ⟨hi, ?_⟩⟩
      rw [hv]
      exact (hs.member_indexed _).1 ⟨st, hl, hi⟩
    · obtain ⟨st, hl⟩ := Option.isSome_iff_exists.1 (AList.lookup_isSome.2 (hs.source_owners info hclass))
      have hl' : (v.statuses .SOURCE_TEXT).lookup (v.ownerOf .SOURCE_TEXT info) = some st :=
        by rw [hv]; exact hl
      refine ⟨st, hl', (hst _ _ hl').imp_left fun hi => ⟨hi, ?_⟩⟩
      rw [hv]
      exact hs.source_indexed _ st hl hi

/-- One class and its members. -/
theorem accounting_one : .member (str "La;") ∈ OneClass.filled.lru ∧
    OneClass.filled.retainedBytes = OneClass.filled.catalogBytes + Lru.weight OneClass.filled.lru ∧
    OneClass.filled.retainedBytes ≤ 4096 :=
  ⟨by decide +kernel, (accounting (OneClass.opened_reachable.trans OneClass.filled_later)).1,
    (accounting (OneClass.opened_reachable.trans OneClass.filled_later)).2.1⟩

end SearchIndexStore

end Libjadx
