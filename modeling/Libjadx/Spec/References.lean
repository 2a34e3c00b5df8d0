import Libjadx.Spec.SearchService

/-!
# Reference snapshots

`ReferenceSnapshot`: the edges that a query observed, without repetitions and in an order of their
own, under an id that is a hash of all of them. Nothing is kept between requests: a cursor names the
snapshot by its id and the place in it by the digest of an edge, and the next request observes the
edges again.
-/

namespace Libjadx

/-! ## Queries -/

inductive ReferenceView
  | PAIRS | INSTRUCTIONS
deriving DecidableEq, Repr

inductive Direction
  | INCOMING | OUTGOING
deriving DecidableEq, Repr

inductive Relation
  | CALL | UNRESOLVED_CALL | FIELD_USE | CLASS_DEPENDENCY | FIELD_READ | FIELD_WRITE
deriving DecidableEq, Repr

def ReferenceView.name : ReferenceView → JString
  | .PAIRS => str "PAIRS"
  | .INSTRUCTIONS => str "INSTRUCTIONS"

def Direction.name : Direction → JString
  | .INCOMING => str "INCOMING"
  | .OUTGOING => str "OUTGOING"

def Relation.name : Relation → JString
  | .CALL => str "CALL"
  | .UNRESOLVED_CALL => str "UNRESOLVED_CALL"
  | .FIELD_USE => str "FIELD_USE"
  | .CLASS_DEPENDENCY => str "CLASS_DEPENDENCY"
  | .FIELD_READ => str "FIELD_READ"
  | .FIELD_WRITE => str "FIELD_WRITE"

def Relation.ordinal : Relation → ℕ
  | .CALL => 0
  | .UNRESOLVED_CALL => 1
  | .FIELD_USE => 2
  | .CLASS_DEPENDENCY => 3
  | .FIELD_READ => 4
  | .FIELD_WRITE => 5

def SymbolKind.name : SymbolKind → JString
  | .CLASS => str "CLASS"
  | .METHOD => str "METHOD"
  | .FIELD => str "FIELD"

namespace ReferenceQuery

/-- The relations that a query may ask for. -/
def allowed (kind : SymbolKind) (direction : Direction) : ReferenceView → List Relation
  | .INSTRUCTIONS => [.CALL, .UNRESOLVED_CALL, .FIELD_READ, .FIELD_WRITE]
  | .PAIRS => match kind with
    | .CLASS => [.CLASS_DEPENDENCY]
    | .FIELD => [.FIELD_USE]
    | .METHOD => if direction = .INCOMING then [.CALL] else [.CALL, .UNRESOLVED_CALL]

def validCursor (s : JString) : Bool := !s.isEmpty && s.length ≤ 4096

end ReferenceQuery

/-- A query, as its constructor leaves it: the relations are sorted. -/
structure ReferenceQuery where
  ref : SymbolRef
  direction : Direction
  relations : List Relation
  pageSize : ℕ
  cursor : Option JString
  includeSourceSites : Bool
  strict : Bool
  expectedSessionId : Option JString
  expectedLogicalRevision : Option ℤ
  view : ReferenceView
  view_valid : view = .INSTRUCTIONS → ref.kind = .METHOD ∧ direction = .OUTGOING ∧
    includeSourceSites = false
  direction_valid : ref.kind = .FIELD → direction = .INCOMING
  relations_valid : relations ≠ [] ∧ relations ⊆ ReferenceQuery.allowed ref.kind direction view
  relations_sorted : relations.Pairwise fun a b => a.ordinal < b.ordinal
  pageSize_valid : 1 ≤ pageSize ∧ pageSize ≤ 100
  cursor_valid : ∀ s ∈ cursor, ReferenceQuery.validCursor s = true
  expected_valid : expectedSessionId.isSome = expectedLogicalRevision.isSome ∧
    ∀ n ∈ expectedLogicalRevision, 0 ≤ n

/-- The same query with a cursor, if the constructor takes it. -/
def ReferenceQuery.follow (query : ReferenceQuery) (token : JString) : Option ReferenceQuery :=
  if h : validCursor token = true then
    some { query with cursor := some token, cursor_valid := fun _ hs => Option.some.inj hs ▸ h }
  else none

/-! ## Edges -/

inductive Resolution
  | RESOLVED | UNRESOLVED | OBSERVED
deriving DecidableEq, Repr

inductive Evidence
  | JADX_METHOD_USED | JADX_METHOD_USE_IN | JADX_METHOD_UNRESOLVED_USED | JADX_FIELD_USE_IN |
    JADX_CLASS_DEPENDENCY
  | JADX_CLASS_USE_IN | LOADED_DEX_INPUT_READER
deriving DecidableEq, Repr

def Resolution.name : Resolution → JString
  | .RESOLVED => str "RESOLVED"
  | .UNRESOLVED => str "UNRESOLVED"
  | .OBSERVED => str "OBSERVED"

def Evidence.name : Evidence → JString
  | .JADX_METHOD_USED => str "JADX_METHOD_USED"
  | .JADX_METHOD_USE_IN => str "JADX_METHOD_USE_IN"
  | .JADX_METHOD_UNRESOLVED_USED => str "JADX_METHOD_UNRESOLVED_USED"
  | .JADX_FIELD_USE_IN => str "JADX_FIELD_USE_IN"
  | .JADX_CLASS_DEPENDENCY => str "JADX_CLASS_DEPENDENCY"
  | .JADX_CLASS_USE_IN => str "JADX_CLASS_USE_IN"
  | .LOADED_DEX_INPUT_READER => str "LOADED_DEX_INPUT_READER"

structure ReferenceSite where
  sourceOwnerRef : SymbolRef
  sourceSnapshotId : JString
  position : Point
  precision : JString
deriving DecidableEq

structure Instruction where
  offsetCodeUnits : ℤ
  unit : JString
  base : JString
  precision : JString
  opcode : JString
deriving DecidableEq

structure ReferenceEdge where
  sourceRef : SymbolRef
  targetRef : SymbolRef
  relation : Relation
  resolution : Resolution
  evidence : Evidence
  sourceSites : List ReferenceSite
  sourceSiteCoverage : JString
  originalOffset : Option JString
  instruction : Option Instruction
deriving DecidableEq

namespace ReferenceSnapshot

def DOMAIN : JString := str "libjadx-references-v1"

/-! ## Keys -/

/-- A field with its length before it; `null` has the length -1. -/
def packed : Option JString → JString
  | none => decimal (-1) ++ [chr ':']
  | some field => decimal field.length ++ chr ':' :: field

def pack (fields : List (Option JString)) : JString := fields.flatMap packed

def refKey (ref : SymbolRef) : JString :=
  pack [some ref.kind.name, some ref.originalClassDescriptor, ref.inputIdentity, ref.originalName,
    ref.originalDescriptor]

def siteKey (site : ReferenceSite) : JString :=
  pack [some (refKey site.sourceOwnerRef), some site.sourceSnapshotId,
    some (decimal site.position.offsetUtf16),
    some (decimal site.position.line), some (decimal site.position.columnCodePoints),
      some site.precision]

def instructionKey (insn : Instruction) : JString :=
  pack [some (decimal insn.offsetCodeUnits), some insn.unit, some insn.base, some insn.precision,
    some insn.opcode]

def orderingKey (edge : ReferenceEdge) : JString :=
  pack ([some edge.relation.name, some (refKey edge.sourceRef), some (refKey edge.targetRef),
      some edge.resolution.name,
      some edge.evidence.name, some edge.sourceSiteCoverage] ++
    edge.sourceSites.map (fun site => some (siteKey site)) ++
    (edge.instruction.map fun insn => some (instructionKey insn)).toList)

/-! ## Order -/

/-- `REF_ORDER`; an absent field is the first. -/
def REF_ORDER : SymbolRef → SymbolRef → Ordering :=
  compareLex (compareOn fun r => r.kind.name) <| compareLex
    (compareOn SymbolRef.originalClassDescriptor) <|
    compareLex (compareOn SymbolRef.inputIdentity) <| compareLex
      (compareOn SymbolRef.originalName) <|
    compareOn SymbolRef.originalDescriptor

def pairOrder : ReferenceEdge → ReferenceEdge → Ordering :=
  compareLex (compareOn fun e => e.relation.name) <| compareLex (fun a b =>
    REF_ORDER a.sourceRef b.sourceRef) <|
    compareLex (fun a b => REF_ORDER a.targetRef b.targetRef) <| compareLex (compareOn fun e =>
      e.resolution.name) <|
    compareOn orderingKey

/-- The order of a view; the one of instructions starts with the offset. -/
def order : ReferenceView → ReferenceEdge → ReferenceEdge → Ordering
  | .PAIRS => pairOrder
  | .INSTRUCTIONS => compareLex (compareOn fun e =>
      e.instruction.map Instruction.offsetCodeUnits) pairOrder

/-! ## Hashes -/

/-- Every field with its length before it. -/
def bytes (fields : List JString) : List UInt8 :=
  fields.flatMap fun field => DataStream.writeInt (Int32.ofNat field.length) ++
    DataStream.writeChars field

def hexDigit (n : ℕ) : JChar := if n < 10 then (48 + n).toUInt16 else (87 + n).toUInt16

/-- `HexFormat.of().formatHex(raw)`. -/
def formatHex (raw : List UInt8) : JString :=
  raw.flatMap fun b => [hexDigit (b.toNat / 16), hexDigit (b.toNat % 16)]

variable (platform : Platform)

def hash (fields : List JString) : JString :=
  str "sha256:" ++ formatHex (platform.sha256 (bytes fields))

def edgeFields (fullKey : JString) : List JString := [str "libjadx-reference-edge-v1", fullKey]

def edgeDigest (fullKey : JString) : JString := hash platform (edgeFields fullKey)

def queryFields (q : ReferenceQuery) : List JString :=
  [refKey q.ref, q.direction.name, listText (q.relations.map Relation.name), decimal q.pageSize,
    flag q.includeSourceSites,
    flag q.strict, q.view.name]

/-- `queryHash(q)`. -/
def queryHashOf (q : ReferenceQuery) : JString := hash platform (queryFields q)

/-! ## Snapshots -/

/-- What a snapshot is made of. -/
structure Observation where
  observed : List ReferenceEdge
  query : ReferenceQuery
  session : JString
  revision : ℤ
  epoch : ℤ
  settings : JString
  observation : JString

end ReferenceSnapshot

structure ReferenceSnapshot where
  edges : List ReferenceEdge
  state : JString
  queryHash : JString
  id : JString
  edgeDigests : List JString

namespace ReferenceSnapshot

structure Cursor where
  state : JString
  queryHash : JString
  snapshot : JString
  last : JString
deriving DecidableEq

inductive ReferenceError
  /-- `ReferenceEdge.instruction()` is null. -/
  | nullInstruction
  | digestCollision
  | stale
  | optionsChanged
  | edgeAbsent
  | limit
  | malformed
deriving DecidableEq

structure Slice where
  edges : List ReferenceEdge
  nextCursor : Option JString

variable (platform : Platform)

/-- `observed.stream().distinct().sorted(order)`. -/
def sorted (view : ReferenceView) (observed : List ReferenceEdge) : List ReferenceEdge :=
  observed.eraseDups.mergeSort fun a b => (order view a b).isLE

/-- The comparator of the instructions view looks into both edges. -/
def comparesNull (view : ReferenceView) (observed : List ReferenceEdge) : Bool :=
  view == .INSTRUCTIONS && 2 ≤ observed.eraseDups.length && observed.any fun e =>
    e.instruction.isNone

def stateFields (o : Observation) : List JString :=
  [DOMAIN, o.session, decimal o.revision, decimal o.epoch, o.settings]

/-- What the id digests. -/
def contentFields (o : Observation) (edges : List ReferenceEdge) : List JString :=
  [DOMAIN, hash platform (stateFields o), queryHashOf platform o.query, o.observation] ++
    edges.map orderingKey

/-- The constructor. -/
def make (o : Observation) : Except ReferenceError ReferenceSnapshot :=
  if comparesNull o.query.view o.observed then .error .nullInstruction
  else
    let edges := sorted o.query.view o.observed
    let digests := edges.map fun e => edgeDigest platform (orderingKey e)
    if digests.Nodup then
      .ok ⟨edges, hash platform (stateFields o), queryHashOf platform o.query, hash platform
        (contentFields platform o edges),
        digests⟩
    else .error .digestCollision

/-! ## Cursors -/

def encode (cursor : Cursor) : Except ReferenceError JString :=
  let token := sign platform.mac
    (bytes [DOMAIN, cursor.state, cursor.queryHash, cursor.snapshot, cursor.last])
  if 4096 < token.length then .error .limit else .ok token

/-- One field, and what is left. -/
def readField (input : List UInt8) : Option (JString × List UInt8) := do
  let (length, input) ← DataStream.readInt input
  if length.toInt < 0 ∨ (input.length / 2 : ℕ) < length.toInt then none
  else DataStream.readChars length.toInt.toNat input

/-- The cursor of authenticated bytes. -/
def readCursor (raw : List UInt8) : Option Cursor := do
  let (domain, input) ← readField raw
  if domain ≠ DOMAIN then none
  let (state, input) ← readField input
  let (queryHash, input) ← readField input
  let (snapshot, input) ← readField input
  let (last, input) ← readField input
  if input ≠ [] then none
  pure ⟨state, queryHash, snapshot, last⟩

def authenticate (token : JString) : Except ReferenceError Cursor :=
  if 4096 < token.length then .error .malformed
  else match (verify platform.mac token).bind readCursor with
    | some cursor => .ok cursor
    | none => .error .malformed

/-! ## Pages -/

variable (snapshot : ReferenceSnapshot)

/-- Where a page starts. -/
def start : Option Cursor → Except ReferenceError ℕ
  | none => .ok 0
  | some cursor =>
    if snapshot.state ≠ cursor.state then .error .stale
    else if snapshot.queryHash ≠ cursor.queryHash then .error .optionsChanged
    else if snapshot.id ≠ cursor.snapshot then .error .stale
    else match snapshot.edgeDigests.idxOf? cursor.last with
      | some position => .ok (position + 1)
      | none => .error .edgeAbsent

def page (query : ReferenceQuery) (cursor : Option Cursor) : Except ReferenceError Slice := do
  let first ← start snapshot cursor
  let stop := min snapshot.edges.length (first + query.pageSize)
  let next ← if stop < snapshot.edges.length then
      (encode platform ⟨snapshot.state, snapshot.queryHash, snapshot.id,
        snapshot.edgeDigests.getD (stop - 1) []⟩).map some
    else .ok none
  pure ⟨(snapshot.edges.take stop).drop first, next⟩

/-- `authenticate(query.cursor(), key)`. -/
def presented (query : ReferenceQuery) : Except ReferenceError (Option Cursor) :=
  match query.cursor with
  | none => .ok none
  | some token => (authenticate platform token).map some

/-- A request: its cursor, the snapshot of what is observed, and the page. -/
def serve (o : Observation) : Except ReferenceError Slice := do
  let cursor ← presented platform o.query
  let snapshot ← make platform o
  page platform snapshot o.query cursor

/-- The pages from a query on, each found with the cursor of the one before, whatever the order is
in which its edges are observed; their edges in a row. -/
inductive Walks (state : Observation) : ReferenceQuery → List ReferenceEdge → Prop
  | last {query : ReferenceQuery} {observed : List ReferenceEdge} {slice : Slice} :
      (∀ e, e ∈ observed ↔ e ∈ state.observed) →
      serve platform { state with observed := observed, query := query } = .ok slice →
        slice.nextCursor = none →
      Walks state query slice.edges
  | next {query query' : ReferenceQuery} {observed : List ReferenceEdge} {slice : Slice}
      {token : JString}
      {rest : List ReferenceEdge} : (∀ e, e ∈ observed ↔ e ∈ state.observed) →
      serve platform { state with observed := observed, query := query } = .ok slice →
        slice.nextCursor = some token →
      query.follow token = some query' → Walks state query' rest →
        Walks state query (slice.edges ++ rest)

end ReferenceSnapshot

end Libjadx
