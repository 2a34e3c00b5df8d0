import Mathlib.Logic.Relation
import Libjadx.Lib.DataStream
import Libjadx.Spec.SearchIndex
import Libjadx.Spec.Token

/-!
# Search pages

`SearchService`: a search copies its hits into a snapshot, and the pages after the first are cut
from the snapshot that the cursor names. The snapshots are kept in the order of their use, under a
count, a budget and an age. The matches of a query are what the loops over the view find, in their
order; the clock and the ids of the snapshots are answers from outside.
-/

namespace Libjadx

/-! ## Queries -/

inductive MatchMode
  | EXACT | CONTAINS | REGEX
deriving DecidableEq, Repr

def MatchMode.name : MatchMode → JString
  | .EXACT => str "EXACT"
  | .CONTAINS => str "CONTAINS"
  | .REGEX => str "REGEX"

def Domain.name : Domain → JString
  | .CLASS_NAME => str "CLASS_NAME"
  | .MEMBER_NAME => str "MEMBER_NAME"
  | .SOURCE_TEXT => str "SOURCE_TEXT"
  | .STRING_LITERAL => str "STRING_LITERAL"

def Domain.ordinal : Domain → ℕ
  | .CLASS_NAME => 0
  | .MEMBER_NAME => 1
  | .SOURCE_TEXT => 2
  | .STRING_LITERAL => 3

namespace SearchQuery

def validQuery (s : JString) : Bool := !isBlank s && s.length ≤ 512 && !s.contains 0

def validDomains (domains : List Domain) (matchMode : Option MatchMode) : Bool :=
  !domains.isEmpty && domains.length ≤ 4 && decide domains.Nodup &&
    !domains.contains .STRING_LITERAL &&
    !(matchMode == some .REGEX && domains.any (· ≠ .SOURCE_TEXT))

def validCursor (s : JString) : Bool := !isBlank s && s.length ≤ 1024

end SearchQuery

structure SearchQuery where
  query : JString
  domains : List Domain
  matchMode : Option MatchMode
  caseSensitive : Bool
  pageSize : ℕ
  cursor : Option JString
  strict : Bool
  requireComplete : Bool
  expectedSessionId : Option JString
  expectedLogicalRevision : Option ℤ
  query_valid : SearchQuery.validQuery query = true
  domains_valid : SearchQuery.validDomains domains matchMode = true
  pageSize_valid : 1 ≤ pageSize ∧ pageSize ≤ 100
  expected_valid : expectedSessionId.isSome = expectedLogicalRevision.isSome ∧
    ∀ n ∈ expectedLogicalRevision, 0 ≤ n
  cursor_valid : ∀ s ∈ cursor, SearchQuery.validCursor s = true

theorem SearchQuery.no_cursor :
    ∀ s ∈ (none : Option JString), SearchQuery.validCursor s = true := nofun

theorem SearchQuery.className_valid :
    SearchQuery.validDomains [.CLASS_NAME] (some .CONTAINS) = true := by decide

/-- The same query with a cursor, if the constructor takes it. -/
def SearchQuery.follow (query : SearchQuery) (token : JString) : Option SearchQuery :=
  if h : validCursor token = true then
    some { query with cursor := some token, cursor_valid := fun _ hs => Option.some.inj hs ▸ h }
  else none

def SearchIndexKey.snapshotId (key : SearchIndexKey) : JString :=
  key.sessionId ++ str ":" ++ decimal key.logicalRevision ++ str ":" ++
    decimal key.publicationEpoch ++ str ":" ++
    key.settingsFingerprint

/-! ## Hits -/

structure Point where
  offsetUtf16 : ℤ
  line : ℤ
  columnCodePoints : ℤ
deriving DecidableEq

/-- A range of a source. -/
structure SourceRange where
  startOffsetUtf16 : ℤ
  endOffsetUtf16 : ℤ
  start : Point
  stop : Point
  sourceSnapshotId : JString
deriving DecidableEq

structure Hit where
  domain : Domain
  ref : Option SymbolRef
  sourceOwnerRef : Option SymbolRef
  displayName : Option JString
  matchedText : JString
  matchMode : Option MatchMode
  range : Option SourceRange
  sourceSnapshotId : Option JString
deriving DecidableEq

def Point.toText (p : Point) : JString :=
  str "Point[offsetUtf16=" ++ decimal p.offsetUtf16 ++ str ", line=" ++ decimal p.line ++
    str ", columnCodePoints=" ++
    decimal p.columnCodePoints ++ str "]"

def SourceRange.toText (r : SourceRange) : JString :=
  str "Range[startOffsetUtf16=" ++ decimal r.startOffsetUtf16 ++ str ", endOffsetUtf16=" ++
    decimal r.endOffsetUtf16 ++
    str ", start=" ++ r.start.toText ++ str ", end=" ++ r.stop.toText ++
      str ", sourceSnapshotId=" ++ r.sourceSnapshotId ++
    str "]"

def Hit.toText (h : Hit) : JString :=
  str "Hit[domain=" ++ h.domain.name ++ str ", ref=" ++ valueOf (h.ref.map SymbolRef.toText) ++
    str ", sourceOwnerRef=" ++ valueOf (h.sourceOwnerRef.map SymbolRef.toText) ++
    str ", displayName=" ++ valueOf h.displayName ++ str ", matchedText=" ++ h.matchedText ++
    str ", matchMode=" ++ valueOf (h.matchMode.map MatchMode.name) ++
    str ", range=" ++ valueOf (h.range.map SourceRange.toText) ++
    str ", sourceSnapshotId=" ++ valueOf h.sourceSnapshotId ++ str "]"

/-! ## The service -/

structure ResultSnapshot where
  storeId : JString
  resultHash : JString
  key : SearchIndexKey
  generation : ℕ
  queryHash : JString
  coverage : List SearchIndexStore.Coverage
  hits : List Hit
  createdAt : Int64
  bytes : ℕ

/-- The snapshots that are kept, the least recently used first, and the counter of their bytes. -/
structure SearchResults where
  results : List ResultSnapshot
  resultBytes : ℤ

structure SearchPage where
  sessionId : JString
  logicalRevision : ℤ
  settingsFingerprint : JString
  indexSnapshotId : JString
  indexGeneration : ℕ
  resultSnapshotId : JString
  coverage : List SearchIndexStore.Coverage
  hits : List Hit
  nextCursor : Option JString
  pageComplete : Bool

inductive SearchError
  | malformedCursor
  | optionsChanged
  | invalidPosition
  | staleIndex
  | stalePrecondition
  | staleGeneration
  | evicted
  | staleResult
  | incomplete (missingDomains : List JString) (coverage : List SearchIndexStore.Coverage)
  | tooManyMatches
  | overRetention
  | illegalState

/-- The request failed because what it asks for is gone. -/
def SearchError.stale : SearchError → Bool
  | .staleIndex | .stalePrecondition | .staleGeneration | .evicted | .staleResult => true
  | _ => false

namespace SearchService

def MAX_HITS : ℕ := 5000
def MAX_HIT_BYTES : ℕ := 4 * 1024 * 1024
def CURSOR_TTL_NANOS : Int64 := 600000000000
def RESULT_BUDGET : ℕ := 16 * 1024 * 1024
def CURSOR_DOMAIN : JString := str "libjadx-search-v1"

structure Cursor where
  keyHash : JString
  generation : Int64
  queryHash : JString
  resultHash : JString
  storeId : JString
  position : Int32

/-! ### Sizes -/

def stringBytes (value : Option JString) : ℕ := (value.map fun s => 48 + 6 * s.length).getD 0

def refBytes (ref : Option SymbolRef) : ℕ :=
  (ref.map fun r => 64 + stringBytes r.originalClassDescriptor + stringBytes r.inputIdentity +
    stringBytes r.originalName + stringBytes r.originalDescriptor).getD 0

def hitBytes (hit : Hit) : ℕ :=
  512 + refBytes hit.ref + refBytes hit.sourceOwnerRef + stringBytes hit.displayName +
    stringBytes hit.matchedText +
    stringBytes hit.sourceSnapshotId

/-! ### Matches -/

/-- `add`, for the matches in the order in which they are found. -/
def addAll : List Hit → List Hit → ℕ → Except SearchError (List Hit)
  | [], hits, _ => .ok hits
  | hit :: found, hits, currentBytes =>
    let next := currentBytes + hitBytes hit
    if MAX_HITS ≤ hits.length ∨ MAX_HIT_BYTES < next then .error .tooManyMatches
    else addAll found (hits ++ [hit]) next

/-- `a.compareTo(b)`. -/
def compareTo (a b : JString) : Ordering := if a < b then .lt else if a = b then .eq else .gt

/-- A component of the reference of a hit, or nothing. -/
def refText (component : SymbolRef → Option JString) (hit : Hit) : JString :=
  (hit.ref.bind component).getD []

/-- The comparator of the hits. -/
def compareHits (a b : Hit) : Ordering :=
  let owner (h : Hit) := ((h.ref <|> h.sourceOwnerRef).map SymbolRef.originalClassDescriptor).getD []
  let offset (f : SourceRange → ℤ) (h : Hit) : ℤ := (h.range.map f).getD (-1)
  (compareTo a.domain.name b.domain.name).then <|
    (compareTo (owner a) (owner b)).then <|
    (compareTo (refText SymbolRef.originalName a) (refText SymbolRef.originalName b)).then <|
    (compareTo (refText SymbolRef.originalDescriptor a) (refText SymbolRef.originalDescriptor b)).then <|
    (compareTo (a.sourceSnapshotId.getD []) (b.sourceSnapshotId.getD [])).then <|
    (compare (offset SourceRange.startOffsetUtf16 a) (offset SourceRange.startOffsetUtf16 b)).then <|
    (compare (offset SourceRange.endOffsetUtf16 a) (offset SourceRange.endOffsetUtf16 b)).then <|
    compareTo (a.displayName.getD []) (b.displayName.getD [])

/-- `materialize`, once the loops have found the matches. -/
def materialize (found : List Hit) : Except SearchError (List Hit) :=
  (addAll found [] 0).map fun hits => hits.mergeSort fun a b => compareHits a b != .gt

/-! ### Hashes and cursors -/

/-- The text that `queryHash` digests. -/
def normalized (query : SearchQuery) : JString :=
  query.query ++ 0 :: (listText ((query.domains.mergeSort fun a b => a.ordinal ≤ b.ordinal).map
    Domain.name) ++
    0 :: (valueOf (query.matchMode.map MatchMode.name) ++ 0 :: (flag query.caseSensitive ++
      0 :: (decimal query.pageSize ++ 0 :: (flag query.strict ++ 0 :: flag query.requireComplete)))))

variable (platform : Platform)

def hash (value : JString) : JString := encodeToString (platform.sha256 (getBytes value))

def queryHash (query : SearchQuery) : JString := hash platform (normalized query)

/-- The bytes of a cursor, unless a text is too long for the stream. -/
def cursorBytes (cursor : Cursor) : Option (List UInt8) := do
  let domain ← DataStream.writeUTF CURSOR_DOMAIN
  let keyHash ← DataStream.writeUTF cursor.keyHash
  let queryHash ← DataStream.writeUTF cursor.queryHash
  let resultHash ← DataStream.writeUTF cursor.resultHash
  let storeId ← DataStream.writeUTF cursor.storeId
  pure (domain ++ (keyHash ++ (DataStream.writeLong cursor.generation ++
    (queryHash ++ (resultHash ++ (storeId ++
    DataStream.writeInt cursor.position))))))

def encode (cursor : Cursor) : Except SearchError JString :=
  match cursorBytes cursor with
  | some raw => .ok (sign platform.mac raw)
  | none => .error .illegalState

/-- The cursor of the bytes, and nothing after it. -/
def readCursor (raw : List UInt8) : Option Cursor := do
  let (domain, l) ← DataStream.readUTF raw
  if domain ≠ CURSOR_DOMAIN then none
  let (keyHash, l) ← DataStream.readUTF l
  let (generation, l) ← DataStream.readLong l
  let (queryHash, l) ← DataStream.readUTF l
  let (resultHash, l) ← DataStream.readUTF l
  let (storeId, l) ← DataStream.readUTF l
  let (position, l) ← DataStream.readInt l
  if l ≠ [] then none
  pure ⟨keyHash, generation, queryHash, resultHash, storeId, position⟩

def authenticate (token : JString) : Except SearchError Cursor :=
  if 1024 < token.length then .error .malformedCursor
  else match (verify platform.mac token).bind readCursor with
    | some cursor => .ok cursor
    | none => .error .malformedCursor

/-- The cursor of a snapshot at a position. -/
def cursorOf (snapshot : ResultSnapshot) (position : ℕ) : Cursor where
  keyHash := hash platform snapshot.key.snapshotId
  generation := Int64.ofNat snapshot.generation
  queryHash := snapshot.queryHash
  resultHash := snapshot.resultHash
  storeId := snapshot.storeId
  position := Int32.ofNat position

/-- The page of a snapshot from a position on. -/
def page (snapshot : ResultSnapshot) (pageSize start : ℕ) : Except SearchError SearchPage := do
  let stop := min snapshot.hits.length (start + pageSize)
  let next ← if stop < snapshot.hits.length then
    (encode platform (cursorOf platform snapshot stop)).map some
    else .ok none
  pure ⟨snapshot.key.sessionId, snapshot.key.logicalRevision, snapshot.key.settingsFingerprint,
    snapshot.key.snapshotId, snapshot.generation, snapshot.resultHash, snapshot.coverage,
    (snapshot.hits.take stop).drop start, next, next.isNone⟩

/-! ### Retention -/

/-- `nanoClock.getAsLong() - createdAt > CURSOR_TTL_NANOS`; the difference may wrap. -/
def expired (now createdAt : Int64) : Bool := decide (CURSOR_TTL_NANOS < now - createdAt)

/-- `removeIf`, with the counter. -/
def removeIf (p : ResultSnapshot → Bool) (s : SearchResults) : SearchResults where
  results := s.results.filter fun r => !p r
  resultBytes := s.resultBytes - ((s.results.filter p).map ResultSnapshot.bytes).sum

/-- The loop that makes room for a snapshot. -/
def evictFor (bytes : ℕ) : List ResultSnapshot → ℤ → SearchResults
  | [], total => ⟨[], total⟩
  | eldest :: results, total =>
    if 256 ≤ (eldest :: results).length ∨ (RESULT_BUDGET : ℤ) < total + bytes then
      evictFor bytes results (total - eldest.bytes)
    else ⟨eldest :: results, total⟩

/-- `results.put(snapshot.storeId, snapshot)` and the counter. -/
def put (snapshot : ResultSnapshot) (s : SearchResults) : SearchResults where
  results := s.results.filter (fun r => r.storeId ≠ snapshot.storeId) ++ [snapshot]
  resultBytes := s.resultBytes + snapshot.bytes

/-- `results.get(storeId)`: the entry that is found becomes the most recently used. -/
def touch (storeId : JString) (s : SearchResults) : SearchResults :=
  { s with results := s.results.filter (fun r => r.storeId ≠ storeId) ++ s.results.filter (fun r =>
    r.storeId = storeId) }

/-- What a request comes with: the view of the index, the matches in it, and what the clock and the
generator of ids answer. `now` is the reading of the clock for a snapshot that is looked at. -/
structure Request where
  query : SearchQuery
  key : SearchIndexKey
  view : Option SearchIndexStore.View
  found : List Hit
  id : JString
  createdAt : Int64
  now : JString → Int64
  id_valid : isUuid id
  view_key : ∀ v ∈ view, v.key = key

/-- The snapshot of a search. -/
def snapshotOf (view : SearchIndexStore.View) (query : SearchQuery)
    (coverage : List SearchIndexStore.Coverage)
    (hits : List Hit) (id : JString) (createdAt : Int64) : ResultSnapshot where
  storeId := id
  resultHash := hash platform (view.key.snapshotId ++
    0 :: (decimal view.generation ++ 0 :: (queryHash platform query ++
    0 :: listText (hits.map Hit.toText))))
  key := view.key
  generation := view.generation
  queryHash := queryHash platform query
  coverage := coverage
  hits := hits
  createdAt := createdAt
  bytes := 1024 + (hits.map hitBytes).sum + ((coverage.flatMap fun c => c.diagnostics).map
    fun d : JString => stringBytes (some d)).sum

/-- A snapshot that no cursor of the view can name any more. -/
def obsolete (view : SearchIndexStore.View) (now : JString → Int64) (r : ResultSnapshot) : Bool :=
  decide (r.key ≠ view.key) || decide (r.generation ≠ view.generation) || expired
    (now r.storeId) r.createdAt

/-- `retain`, under the lock. -/
def retain (view : SearchIndexStore.View) (now : JString → Int64) (snapshot : ResultSnapshot)
    (s : SearchResults) :
    Except SearchError ResultSnapshot × SearchResults :=
  let kept := removeIf (obsolete view now) s
  let s := evictFor snapshot.bytes kept.results kept.resultBytes
  if RESULT_BUDGET < snapshot.bytes then (.error .overRetention, s)
    else (.ok snapshot, put snapshot s)

def pageFromCursor (query : SearchQuery) (cursor : Cursor) (view : SearchIndexStore.View)
    (now : JString → Int64)
    (s : SearchResults) : Except SearchError SearchPage × SearchResults :=
  if cursor.queryHash ≠ queryHash platform query then (.error .optionsChanged, s)
  else if cursor.keyHash ≠ hash platform view.key.snapshotId ∨
      cursor.generation ≠ Int64.ofNat view.generation then
    (.error .staleGeneration, s)
  else
    match s.results.find? fun r => r.storeId = cursor.storeId with
    | none => (.error .evicted, s)
    | some snapshot =>
      let s := touch cursor.storeId s
      if expired (now snapshot.storeId) snapshot.createdAt then
        (.error .evicted, removeIf (fun r => r.storeId = cursor.storeId) s)
      else if snapshot.resultHash ≠ cursor.resultHash ∨ snapshot.key ≠ view.key ∨
          snapshot.generation ≠ view.generation then (.error .staleResult, s)
      else if cursor.position.toInt < 1 ∨ (snapshot.hits.length : ℤ) ≤ cursor.position.toInt then
        (.error .invalidPosition, s)
      else (page platform snapshot query.pageSize cursor.position.toInt.toNat, s)

inductive Answer
  | page (p : SearchPage)
  | buildNeeded

/-- What `query` does under the snapshot read, once the cursor is authenticated. -/
def underRead (r : Request) (cursor : Option Cursor) (s : SearchResults) :
    Except SearchError Answer × SearchResults :=
  if r.query.expectedSessionId.isSome ∧ (r.query.expectedSessionId ≠ some r.key.sessionId ∨
      r.query.expectedLogicalRevision ≠ some r.key.logicalRevision) then
        (.error .stalePrecondition, s)
  else
    match r.view with
    | none => (.error .staleIndex, s)
    | some view =>
      let coverage := view.coverage r.query.domains
      match cursor with
      | some cursor =>
        let (result, s) := pageFromCursor platform r.query cursor view r.now s
        (result.map .page, s)
      | none =>
        let missing := (coverage.filter fun c => c.state ≠ .COMPLETE).map fun c => c.domain.name
        if missing ≠ [] ∧ r.query.requireComplete = true then (.ok .buildNeeded, s)
        else if missing ≠ [] ∧ r.query.strict = true then (.error (.incomplete missing coverage), s)
        else
          match materialize r.found with
          | .error e => (.error e, s)
          | .ok hits =>
            match retain view r.now (snapshotOf platform view r.query coverage hits r.id
                r.createdAt) s with
            | (.error e, s) => (.error e, s)
            | (.ok snapshot, s) => ((page platform snapshot r.query.pageSize 0).map .page, s)

/-- `query`. -/
def answer (r : Request) (s : SearchResults) : Except SearchError Answer × SearchResults :=
  match r.query.cursor with
  | none => underRead platform r none s
  | some token =>
    match authenticate platform token with
    | .error e => (.error e, s)
    | .ok cursor => underRead platform r (some cursor) s

/-! ### Runs -/

/-- The snapshots, and the ids that were drawn for one. -/
structure Service where
  state : SearchResults
  issued : List JString

/-- A service before its first search. -/
def empty : Service := ⟨⟨[], 0⟩, []⟩

/-- A request is answered; a search draws an id that none before it drew. -/
inductive Step : Service → Request → Service → Prop
  | search {s : Service} {r : Request} : r.query.cursor = none → r.id ∉ s.issued →
      Step s r ⟨(answer platform r s.state).2, r.id :: s.issued⟩
  | follow {s : Service} {r : Request} : r.query.cursor ≠ none →
      Step s r ⟨(answer platform r s.state).2, s.issued⟩

/-- After any requests. -/
def Reached : Service → Prop := Relation.ReflTransGen (fun s t => ∃ r, Step platform s r t) empty

/-- Some client has followed the cursors of a search with these hits, while any other requests were
answered; the hits it was given, in a row, and the last cursor. -/
inductive Walked (query : SearchQuery) (hits : List Hit) :
    Service → List Hit → Option JString → Prop
  | search {s t : Service} {r : Request} {p : SearchPage} :
      Reached platform s → Step platform s r t →
      r.query = query → query.cursor = none → materialize r.found = .ok hits →
      (answer platform r s.state).1 = .ok (.page p) → Walked query hits t p.hits p.nextCursor
  | other {s t : Service} {r : Request} {given : List Hit} {next : Option JString} :
      Walked query hits s given next →
      Step platform s r t → Walked query hits t given next
  | follow {s t : Service} {r : Request} {p : SearchPage} {given : List Hit} {token : JString} :
      Walked query hits s given (some token) → Step platform s r t →
        query.follow token = some r.query →
      (answer platform r s.state).1 = .ok (.page p) →
        Walked query hits t (given ++ p.hits) p.nextCursor

end SearchService

end Libjadx
