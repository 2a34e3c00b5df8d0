import Mathlib.Data.Finset.Basic
import Libjadx.Lib.Lru
import Libjadx.Spec.Symbols

/-!
# The search index store

`SearchIndexStore`: the copied fragments of one published engine, under a byte budget. Every
operation runs under the store's monitor; what the runtime publishes while it runs is an
answer from outside. `published` is history, not state of the code: every fragment an
operation accepted, with the key it was accepted under.
-/

namespace Libjadx

/-- Complete identity of one published primary engine. -/
structure SearchIndexKey where
  sessionId : JString
  logicalRevision : ℤ
  publicationEpoch : ℤ
  settingsFingerprint : JString
deriving DecidableEq

/-! ## Fragments -/

inductive Provenance
  | EXACT | AMBIGUOUS | UNAVAILABLE
deriving DecidableEq, Repr

structure ClassInfo where
  ref : SymbolRef
  originalDottedName : JString
  displayName : JString
  displayQualifiedName : JString
  isInner : Bool
  codeAvailable : Bool
  originalParent : Option SymbolRef
  provenance : Provenance
deriving DecidableEq

structure SymbolInfo where
  ref : SymbolRef
  originalName : Option JString
  originalDescriptor : Option JString
  displayName : JString
  displayQualifiedName : JString
  containingClass : Option SymbolRef
  provenance : Provenance
deriving DecidableEq

inductive DecompileStatus
  | COMPLETE | PARTIAL | UNAVAILABLE
deriving DecidableEq, Repr

structure SourceFragment where
  ownerDescriptor : JString
  sourceSnapshotId : JString
  source : Option JString
  decompileStatus : DecompileStatus
deriving DecidableEq

inductive FragmentState
  | PENDING | INDEXED | SKIPPED_WITH_VERIFIED_REASON | FAILED_WITH_BOUNDED_DIAGNOSTIC | EVICTED
deriving DecidableEq, Repr

structure FragmentStatus where
  state : FragmentState
  reason : Option JString
deriving DecidableEq

inductive Domain
  | CLASS_NAME | MEMBER_NAME | SOURCE_TEXT | STRING_LITERAL
deriving DecidableEq, Repr

/-! ## Sizes -/

def textBytes (value : Option JString) : ℕ := (value.map fun s => 48 + 2 * s.length).getD 0

def refBytes (ref : Option SymbolRef) : ℕ :=
  (ref.map fun r => 64 + textBytes r.originalClassDescriptor + textBytes r.inputIdentity +
    textBytes r.originalName + textBytes r.originalDescriptor).getD 0

def estimate (fragment : List SymbolInfo) : ℕ :=
  128 + (fragment.map fun info => 256 + textBytes info.originalName + textBytes info.originalDescriptor +
    textBytes info.displayName + textBytes info.displayQualifiedName + refBytes info.ref +
    refBytes info.containingClass).sum

def catalogEstimate (catalog : List ClassInfo) (sourceOwners : List (JString × JString)) : ℕ :=
  256 + (catalog.map fun info => 768 + textBytes info.originalDottedName + textBytes info.displayName +
    textBytes info.displayQualifiedName + refBytes info.ref + refBytes info.originalParent).sum +
  (sourceOwners.map fun entry => 128 + textBytes entry.1 + textBytes entry.2).sum

/-- The size of a retained source fragment. -/
def SourceFragment.bytes (fragment : SourceFragment) : ℕ :=
  textBytes fragment.source + textBytes fragment.sourceSnapshotId +
    textBytes fragment.ownerDescriptor + 256

/-! ## State -/

/-- A map from descriptors; the order of its entries is never observed. -/
abbrev Table (β : Type) := AList fun _ : JString => β

/-- A key of the LRU: `"M:" + descriptor` or `"S:" + owner`. -/
inductive FragmentKey
  | member (descriptor : JString)
  | source (owner : JString)
deriving DecidableEq

/-- A fragment as it was published. -/
inductive Publication
  | members (descriptor : JString) (fragment : List SymbolInfo)
  | source (fragment : SourceFragment)

/-- The fields of the store. The generation is a `long` of the code: a number stands for it as long
as the store was bumped fewer than `2 ^ 63` times. -/
structure SearchIndex where
  key : Option SearchIndexKey
  generation : ℕ
  classes : List ClassInfo
  owners : List (JString × JString)
  members : Table (List SymbolInfo)
  sources : Table SourceFragment
  memberStatus : Table FragmentStatus
  sourceStatus : Table FragmentStatus
  lru : Lru FragmentKey
  retainedBytes : ℤ
  catalogBytes : ℕ
  unfinishedBuilds : Finset Domain
  published : List (SearchIndexKey × Publication)

inductive SearchFailure
  | indexLimit
  | staleIndex
deriving DecidableEq, Repr

namespace SearchIndexStore

def PENDING : FragmentStatus := ⟨.PENDING, none⟩
def INDEXED : FragmentStatus := ⟨.INDEXED, none⟩
def EVICTED : FragmentStatus := ⟨.EVICTED, some (str "Memory budget evicted fragment")⟩

/-- A store before its first catalog. -/
def empty : SearchIndex where
  key := none
  generation := 0
  classes := []
  owners := []
  members := ∅
  sources := ∅
  memberStatus := ∅
  sourceStatus := ∅
  lru := ∅
  retainedBytes := 0
  catalogBytes := 0
  unfinishedBuilds := ∅
  published := []

/-- `sourceOwners.getOrDefault(descriptor, descriptor)`. -/
def sourceOwner (sourceOwners : List (JString × JString)) (descriptor : JString) : JString :=
  (sourceOwners.lookup descriptor).getD descriptor

/-- The status of the owner of a fragment. -/
def status (k : FragmentKey) (s : SearchIndex) : Option FragmentStatus :=
  match k with
  | .member descriptor => s.memberStatus.lookup descriptor
  | .source owner => s.sourceStatus.lookup owner

def setStatus (k : FragmentKey) (status : FragmentStatus) (s : SearchIndex) : SearchIndex :=
  match k with
  | .member descriptor => { s with memberStatus := s.memberStatus.insert descriptor status }
  | .source owner => { s with sourceStatus := s.sourceStatus.insert owner status }

def bump (s : SearchIndex) : SearchIndex := { s with generation := s.generation + 1 }

def remove (k : FragmentKey) (s : SearchIndex) : SearchIndex :=
  let s := { s with lru := s.lru.erase k, retainedBytes := s.retainedBytes - (s.lru.lookup k).getD 0 }
  match k with
  | .member descriptor => { s with members := s.members.erase descriptor }
  | .source owner => { s with sources := s.sources.erase owner }

/-- `evict`. Every round drops an entry of the LRU, so as many rounds as it has entries are
enough. -/
def evict (maxBytes : ℕ) : ℕ → SearchIndex → SearchIndex
  | 0, s => s
  | n + 1, s =>
    if (maxBytes : ℤ) < s.retainedBytes then
      match Lru.eldest s.lru with
      | none => s
      | some oldest => evict maxBytes n (bump (setStatus oldest EVICTED (remove oldest s)))
    else s

/-- `lru.put(k, bytes); retainedBytes += bytes; generation++; evict()`. -/
def account (maxBytes : ℕ) (k : FragmentKey) (bytes : ℕ) (s : SearchIndex) : SearchIndex :=
  let s := bump { s with lru := s.lru.insert k bytes, retainedBytes := s.retainedBytes + bytes }
  evict maxBytes s.lru.entries.length s

/-- `reason.length() > 120 ? reason.substring(0, 120) : reason`. -/
def boundedReason (reason : JString) : JString := reason.take 120

variable (maxBytes : ℕ)

/-- `accept`, with what the runtime publishes at that moment. -/
def accept (publication expected : Option SearchIndexKey) (s : SearchIndex) : Bool :=
  expected.isSome && s.key == expected && publication == expected

/-! ## Operations -/

/-- The member statuses a catalog starts with. -/
def initialMembers (catalog : List ClassInfo) : Table FragmentStatus :=
  catalog.foldl (fun m info => m.insert info.ref.originalClassDescriptor PENDING) ∅

def noCode : FragmentStatus := ⟨.SKIPPED_WITH_VERIFIED_REASON, some (str "Jadx JavaClass.isNoCode()")⟩

/-- The source statuses a catalog starts with: one for each owner, then the owners without code. -/
def initialSources (catalog : List ClassInfo) (sourceOwners : List (JString × JString)) :
    Table FragmentStatus :=
  let pending := catalog.foldl (fun m info =>
    m.insert (sourceOwner sourceOwners info.ref.originalClassDescriptor) PENDING) ∅
  catalog.foldl (fun m info =>
    let descriptor := info.ref.originalClassDescriptor
    if sourceOwner sourceOwners descriptor = descriptor ∧
      info.codeAvailable = false then m.insert descriptor noCode
    else m) pending

/-- The store of a new key: nothing but its catalog. -/
def catalogued (expected : SearchIndexKey) (catalog : List ClassInfo)
    (sourceOwners : List (JString × JString))
    (s : SearchIndex) : SearchIndex :=
  { s with
    key := some expected
    generation := s.generation + 1
    classes := catalog
    owners := sourceOwners
    members := ∅
    sources := ∅
    memberStatus := initialMembers catalog
    sourceStatus := initialSources catalog sourceOwners
    lru := ∅
    retainedBytes := catalogEstimate catalog sourceOwners
    catalogBytes := catalogEstimate catalog sourceOwners
    unfinishedBuilds := ∅ }

/-- `initialize`. `outside` is what the runtime publishes before the monitor is taken, `inside`
what it publishes under it. -/
def initializeIndex (outside inside : Option SearchIndexKey) (expected : SearchIndexKey)
    (catalog : List ClassInfo)
    (sourceOwners : List (JString × JString)) (s : SearchIndex) :
    Except SearchFailure Bool × SearchIndex :=
  if outside ≠ some expected then (.ok false, s)
  else if maxBytes < catalogEstimate catalog sourceOwners then (.error .indexLimit, s)
  else if inside ≠ some expected then (.ok false, s)
  else if s.key = some expected then (.ok true, s)
  else (.ok true, catalogued expected catalog sourceOwners s)

/-- Record an accepted publication. -/
def accepted (expected : SearchIndexKey) (p : Publication) (s : SearchIndex) : SearchIndex :=
  { s with published := s.published ++ [(expected, p)] }

/-- `lru.get(k)`. -/
def used (k : FragmentKey) (s : SearchIndex) : SearchIndex := { s with lru := Lru.touch k s.lru }

/-- Replace the members of a class. -/
def putMembers (descriptor : JString) (fragment : List SymbolInfo) (s : SearchIndex) :
    SearchIndex :=
  let s := remove (.member descriptor) s
  let s := setStatus (.member descriptor) INDEXED
    { s with members := s.members.insert descriptor fragment }
  account maxBytes (.member descriptor) (estimate fragment) s

def publishMembers (outside inside : Option SearchIndexKey) (expected : SearchIndexKey)
    (descriptor : JString)
    (fragment : List SymbolInfo) (s : SearchIndex) : Bool × SearchIndex :=
  if outside ≠ some expected then (false, s)
  else if !accept inside (some expected) s || s.memberStatus.lookup descriptor =
    none then (false, s)
  else
    let s := accepted expected (.members descriptor fragment) s
    if s.members.lookup descriptor = some fragment ∧
        s.memberStatus.lookup descriptor = some INDEXED then
      (true, used (.member descriptor) s)
    else (true, putMembers maxBytes descriptor fragment s)

/-- `mark`: the fragment of a failed owner is dropped. -/
def mark (inside expected : Option SearchIndexKey) (k : FragmentKey) (reason : JString)
    (s : SearchIndex) :
    Bool × SearchIndex :=
  if !accept inside expected s || status k s = none then (false, s)
  else (true, bump (setStatus k ⟨.FAILED_WITH_BOUNDED_DIAGNOSTIC, some (boundedReason reason)⟩
    (remove k s)))

/-- The status a published source gets. -/
def sourceStatusOf (fragment : SourceFragment) : FragmentStatus :=
  if fragment.decompileStatus = .COMPLETE then INDEXED
  else ⟨.FAILED_WITH_BOUNDED_DIAGNOSTIC, some (str "Jadx emitted partial Java with recorded node errors")⟩

/-- Whether the fragment has a source that fits. -/
def oversized (fragment : SourceFragment) : Bool :=
  match fragment.source with
  | none => true
  | some source => maxBytes < source.length * 2 || 4000000 < source.length

/-- Replace the source of an owner. -/
def putSource (fragment : SourceFragment) (s : SearchIndex) : SearchIndex :=
  let s := remove (.source fragment.ownerDescriptor) s
  let s := setStatus (.source fragment.ownerDescriptor) (sourceStatusOf fragment)
    { s with sources := s.sources.insert fragment.ownerDescriptor fragment }
  account maxBytes (.source fragment.ownerDescriptor) fragment.bytes s

def publishSource (outside inside : Option SearchIndexKey) (expected : SearchIndexKey)
    (fragment : SourceFragment)
    (s : SearchIndex) : Bool × SearchIndex :=
  if outside ≠ some expected then (false, s)
  else if oversized maxBytes fragment then
    mark inside (some expected) (.source fragment.ownerDescriptor)
      (str "Emitted owner Java exceeds source/index limit") s
  else if !accept inside (some expected) s || s.sourceStatus.lookup fragment.ownerDescriptor =
    none then (false, s)
  else
    let s := accepted expected (.source fragment) s
    if s.sources.lookup fragment.ownerDescriptor = some fragment ∧
        s.sourceStatus.lookup fragment.ownerDescriptor = some (sourceStatusOf fragment) then
      (true, used (.source fragment.ownerDescriptor) s)
    else (true, putSource maxBytes fragment s)

def skipSource (inside expected : Option SearchIndexKey) (owner reason : JString)
    (s : SearchIndex) :
    Bool × SearchIndex :=
  if !accept inside expected s || s.sourceStatus.lookup owner = none then (false, s)
  else (true, bump (setStatus (.source owner)
    ⟨.SKIPPED_WITH_VERIFIED_REASON, some (boundedReason reason)⟩ (remove (.source owner) s)))

def beginBuild (inside expected : Option SearchIndexKey) (domains : List Domain) (s : SearchIndex) :
    Except SearchFailure Unit × SearchIndex :=
  if !accept inside expected s then (.error .staleIndex, s)
  else
    let started := s.unfinishedBuilds ∪ domains.toFinset
    (.ok (), if started = s.unfinishedBuilds then s else bump { s with unfinishedBuilds := started })

def finishBuild (inside expected : Option SearchIndexKey) (domains : List Domain)
    (s : SearchIndex) :
    Except SearchFailure Unit × SearchIndex :=
  if !accept inside expected s then (.error .staleIndex, s)
  else
    let left := s.unfinishedBuilds \ domains.toFinset
    (.ok (), if left = s.unfinishedBuilds then s else bump { s with unfinishedBuilds := left })

/-- One member owner of `resetDomains`. -/
def resetMember (s : SearchIndex) (descriptor : JString) : SearchIndex :=
  setStatus (.member descriptor) PENDING (remove (.member descriptor) s)

/-- One source owner of `resetDomains`: a verified skip stays. -/
def resetSource (s : SearchIndex) (owner : JString) : SearchIndex :=
  if (s.sourceStatus.lookup owner).any (·.state = .SKIPPED_WITH_VERIFIED_REASON) then s
  else setStatus (.source owner) PENDING (remove (.source owner) s)

def resetDomains (inside expected : Option SearchIndexKey) (domains : List Domain)
    (s : SearchIndex) :
    Except SearchFailure Unit × SearchIndex :=
  if !accept inside expected s then (.error .staleIndex, s)
  else
    let s := if .MEMBER_NAME ∈ domains then s.memberStatus.keys.foldl resetMember s else s
    let s := if .SOURCE_TEXT ∈ domains then s.sourceStatus.keys.foldl resetSource s else s
    (.ok (), bump s)

/-! ## Views -/

structure View where
  key : SearchIndexKey
  generation : ℕ
  classes : List ClassInfo
  owners : List (JString × JString)
  members : Table (List SymbolInfo)
  sources : Table SourceFragment
  memberStatus : Table FragmentStatus
  sourceStatus : Table FragmentStatus
  unfinishedBuilds : Finset Domain

def view (inside expected : Option SearchIndexKey) (s : SearchIndex) : Except SearchFailure View :=
  match expected with
  | none => .error .staleIndex
  | some key =>
    if !accept inside (some key) s then .error .staleIndex
    else .ok ⟨key, s.generation, s.classes, s.owners, s.members, s.sources, s.memberStatus,
      s.sourceStatus,
      s.unfinishedBuilds⟩

inductive CoverageState
  | COMPLETE | PARTIAL
deriving DecidableEq, Repr

structure Coverage where
  domain : Domain
  state : CoverageState
  eligible : ℕ
  indexed : ℕ
  pending : ℕ
  skipped : ℕ
  failed : ℕ
  evicted : ℕ
  diagnostics : List JString

/-- How many owners are in a state. -/
def count (statuses : Table FragmentStatus) (state : FragmentState) : ℕ :=
  statuses.entries.countP fun e => e.2.state = state

/-- The first sixteen reasons, by owner. -/
def diagnostics (statuses : Table FragmentStatus) : List JString :=
  ((statuses.entries.mergeSort fun a b => JString.le a.1 b.1).filterMap fun e =>
    e.2.reason.map fun reason => e.1 ++ str ": " ++ reason).take 16

/-- The statuses `coverage` counts for a domain. -/
def View.statuses (v : View) (domain : Domain) : Table FragmentStatus :=
  if domain = .MEMBER_NAME then v.memberStatus else v.sourceStatus

def View.coverageOf (v : View) (domain : Domain) : Coverage :=
  if domain = .CLASS_NAME then ⟨domain, .COMPLETE, v.classes.length, v.classes.length, 0, 0, 0, 0, []⟩
  else
    let statuses := v.statuses domain
    let pending := count statuses .PENDING
    let failed := count statuses .FAILED_WITH_BOUNDED_DIAGNOSTIC
    let evicted := count statuses .EVICTED
    ⟨domain, if pending + failed + evicted = 0 ∧ domain ∉ v.unfinishedBuilds then .COMPLETE
      else .PARTIAL,
      statuses.entries.length, count statuses .INDEXED, pending,
        count statuses .SKIPPED_WITH_VERIFIED_REASON,
      failed, evicted, diagnostics statuses⟩

def View.coverage (v : View) (domains : List Domain) : List Coverage := domains.map v.coverageOf

/-- The owner a class belongs to in a domain. -/
def View.ownerOf (v : View) (domain : Domain) (info : ClassInfo) : JString :=
  if domain = .MEMBER_NAME then info.ref.originalClassDescriptor
  else sourceOwner v.owners info.ref.originalClassDescriptor

/-- The view holds the fragment of an owner. -/
def View.holds (v : View) (domain : Domain) (owner : JString) : Prop :=
  if domain = .MEMBER_NAME then owner ∈ v.members else owner ∈ v.sources

/-! ## Runs -/

/-- A call of a method that may change the store. -/
inductive Op
  | initializeIndex (expected : SearchIndexKey) (catalog : List ClassInfo)
    (sourceOwners : List (JString × JString))
  | publishMembers (expected : SearchIndexKey) (descriptor : JString) (fragment : List SymbolInfo)
  | publishSource (expected : SearchIndexKey) (fragment : SourceFragment)
  | failMembers (expected : Option SearchIndexKey) (descriptor reason : JString)
  | failSource (expected : Option SearchIndexKey) (owner reason : JString)
  | skipSource (expected : Option SearchIndexKey) (owner reason : JString)
  | beginBuild (expected : Option SearchIndexKey) (domains : List Domain)
  | finishBuild (expected : Option SearchIndexKey) (domains : List Domain)
  | resetDomains (expected : Option SearchIndexKey) (domains : List Domain)

/-- What a call leaves, whatever the runtime publishes around it. -/
def perform (outside inside : Option SearchIndexKey) (s : SearchIndex) : Op → SearchIndex
  | .initializeIndex expected catalog sourceOwners =>
    (initializeIndex maxBytes outside inside expected catalog sourceOwners s).2
  | .publishMembers expected descriptor fragment =>
    (publishMembers maxBytes outside inside expected descriptor fragment s).2
  | .publishSource expected fragment =>
      (publishSource maxBytes outside inside expected fragment s).2
  | .failMembers expected descriptor reason =>
      (mark inside expected (.member descriptor) reason s).2
  | .failSource expected owner reason => (mark inside expected (.source owner) reason s).2
  | .skipSource expected owner reason => (skipSource inside expected owner reason s).2
  | .beginBuild expected domains => (beginBuild inside expected domains s).2
  | .finishBuild expected domains => (finishBuild inside expected domains s).2
  | .resetDomains expected domains => (resetDomains inside expected domains s).2

def Step (s t : SearchIndex) : Prop := ∃ outside inside op, t = perform maxBytes outside inside s op

/-- A later state of the same store. -/
def Later (s t : SearchIndex) : Prop := Relation.ReflTransGen (Step maxBytes) s t

def Reachable (s : SearchIndex) : Prop := Later maxBytes empty s

end SearchIndexStore

end Libjadx
