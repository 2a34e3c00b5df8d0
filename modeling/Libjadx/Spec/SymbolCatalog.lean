import Libjadx.Spec.SearchIndex
import Libjadx.Spec.Token

/-!
# The class catalog

`SymbolCatalog`: the classes that Jadx shows, sorted by descriptor and occurrence, and their pages.
A cursor carries the last entry of its page through UTF-8 and an HMAC; the next request finds the
place again by binary search.
-/

namespace Libjadx

/-! ## Queries -/

inductive NameDomain
  | original | alias
deriving DecidableEq, Repr

def NameDomain.name : NameDomain → JString
  | .original => str "original"
  | .alias => str "alias"

namespace ClassQuery

/-- `text.contains(s)`. -/
def contains (text s : JString) : Bool := decide (s <:+: text)

/-- The checks of a package prefix. -/
def validPackagePrefix (s : JString) : Bool :=
  s.length ≤ 512 && !s.isEmpty && !s.contains (chr '/') && !JString.startsWith s (str ".") &&
    !JString.endsWith s (str ".") && !contains s (str "..") &&
    (validateClassDescriptor (str "L" ++ (s.map fun c => if c = chr '.' then chr '/' else c) ++
      str "/Check;")).isOk

def validNameContains (s : JString) : Bool := !s.isEmpty && s.length ≤ 256 && !s.any isISOControl

def validCursor (s : JString) : Bool := !s.isEmpty && s.length ≤ 4096

end ClassQuery

structure ClassQuery where
  pageSize : ℕ
  cursor : Option JString
  packagePrefix : Option JString
  nameContains : Option JString
  nameDomain : NameDomain
  includeInner : Bool
  pageSize_valid : 1 ≤ pageSize ∧ pageSize ≤ 100
  cursor_valid : ∀ s ∈ cursor, ClassQuery.validCursor s = true
  packagePrefix_valid : ∀ s ∈ packagePrefix, ClassQuery.validPackagePrefix s = true
  nameContains_valid : ∀ s ∈ nameContains, ClassQuery.validNameContains s = true

namespace ClassQuery

theorem no_cursor : ∀ s ∈ (none : Option JString), ClassQuery.validCursor s = true := nofun

theorem no_packagePrefix :
    ∀ s ∈ (none : Option JString), ClassQuery.validPackagePrefix s = true := nofun

variable (query : ClassQuery)

/-- The same query with a cursor, if the constructor takes it. -/
def follow (token : JString) : Option ClassQuery :=
  if h : validCursor token = true then
    some { query with cursor := some token, cursor_valid := fun _ hs => Option.some.inj hs ▸ h }
  else none

/-- `name.substring(0, name.lastIndexOf('.'))`, or nothing. -/
def packageOf (name : JString) : JString := ((name.reverse.dropWhile (· ≠ chr '.')).drop 1).reverse

/-- The filters of the loop in `page`. -/
def passes (info : ClassInfo) : Bool :=
  (query.includeInner || !info.isInner) &&
    (query.packagePrefix.all fun s =>
      packageOf info.originalDottedName = s || JString.startsWith
        (packageOf info.originalDottedName) (s ++ str ".")) &&
    query.nameContains.all fun s =>
      contains (if query.nameDomain = .original then info.originalDottedName
        else info.displayQualifiedName) s

end ClassQuery

/-! ## The catalog -/

structure CatalogEntry where
  info : ClassInfo
  occurrence : ℕ

/-- The catalog, as its constructor leaves it. -/
structure SymbolCatalog where
  sessionId : JString
  logicalRevision : ℤ
  publicationEpoch : ℤ
  entries : List CatalogEntry
  /-- The revision and the epoch are `long`s. -/
  longs : (-2 ^ 63 ≤ logicalRevision ∧ logicalRevision < 2 ^ 63) ∧ -2 ^ 63 ≤ publicationEpoch ∧
    publicationEpoch < 2 ^ 63

def CatalogEntry.descriptor (e : CatalogEntry) : JString := e.info.ref.originalClassDescriptor

namespace SymbolCatalog

/-- The entries in the order of the enumeration; `seen` are the descriptors before. -/
def numbered : List JString → List ClassInfo → List CatalogEntry
  | _, [] => []
  | seen, info :: classes =>
    ⟨info, seen.count info.ref.originalClassDescriptor⟩ ::
      numbered (seen ++ [info.ref.originalClassDescriptor]) classes

/-- An entry whose descriptor is not the only one is ambiguous. -/
def marked (initial : List CatalogEntry) (e : CatalogEntry) : CatalogEntry :=
  if (initial.map CatalogEntry.descriptor).count e.descriptor = 1 then e
  else { e with info := { e.info with provenance := .AMBIGUOUS } }

/-- The order of the entries: by descriptor, then by occurrence. -/
def entryLe (a b : CatalogEntry) : Bool :=
  decide (a.descriptor < b.descriptor ∨ a.descriptor = b.descriptor ∧ a.occurrence ≤ b.occurrence)

def catalogEntries (classes : List ClassInfo) : List CatalogEntry :=
  let initial := numbered [] classes
  (initial.map (marked initial)).mergeSort entryLe

/-- The constructor. -/
def ofClasses (classes : List ClassInfo) (sessionId : JString)
    (logicalRevision publicationEpoch : Int64) : SymbolCatalog where
  sessionId := sessionId
  logicalRevision := logicalRevision.toInt
  publicationEpoch := publicationEpoch.toInt
  entries := catalogEntries classes
  longs := ⟨⟨logicalRevision.le_toInt, logicalRevision.toInt_lt⟩, publicationEpoch.le_toInt,
    publicationEpoch.toInt_lt⟩

structure Cursor where
  descriptor : JString
  occurrence : ℕ

inductive CursorError
  | stale | malformed
deriving DecidableEq

structure ClassPage where
  sessionId : JString
  logicalRevision : ℤ
  snapshotId : JString
  scope : String
  sourceCoverage : String
  items : List ClassInfo
  nextCursor : Option JString
  complete : Bool

/-! ## Cursors -/

/-- The bytes that `filterHash` digests. -/
def normalized (query : ClassQuery) : JString :=
  decimal query.pageSize ++ 0 :: (query.packagePrefix.getD [] ++ 0 :: (query.nameContains.getD [] ++
    0 :: (query.nameDomain.name ++ 0 :: str (toString query.includeInner))))

def filterHash (platform : Platform) (query : ClassQuery) : JString :=
  encodeToString (platform.sha256 (getBytes (normalized query)))

variable (platform : Platform) (catalog : SymbolCatalog)

def payload (query : ClassQuery) (last : CatalogEntry) : JString :=
  str "1" ++ 0 :: (catalog.sessionId ++ 0 :: (decimal catalog.logicalRevision ++
    0 :: (decimal catalog.publicationEpoch ++
    0 :: (filterHash platform query ++ 0 :: (last.descriptor ++ 0 :: decimal last.occurrence)))))

def encode (query : ClassQuery) (last : CatalogEntry) : JString :=
  sign platform.mac (getBytes (payload platform catalog query last))

/-- What `decode` makes of the fields. -/
def ofFields (query : ClassQuery) : List JString → Except CursorError Cursor
  | [version, session, revision, epoch, filter, descriptor, occurrence] =>
    if version ≠ str "1" then .error .malformed
    else match platform.parse 64 revision, platform.parse 64 epoch,
        platform.parse 32 occurrence with
      | some revision, some epoch, some occurrence =>
        if session ≠ catalog.sessionId ∨ revision ≠ catalog.logicalRevision ∨
            epoch ≠ catalog.publicationEpoch then
          .error .stale
        else if filter ≠ filterHash platform query ∨ occurrence < 0 ∨
          100000 < occurrence then .error .malformed
        else if (validateClassDescriptor descriptor).isOk then .ok ⟨descriptor, occurrence.toNat⟩
        else .error .malformed
      | _, _, _ => .error .malformed
  | _ => .error .malformed

def decode (query : ClassQuery) (token : JString) : Except CursorError Cursor :=
  match verify platform.mac token with
  | none => .error .malformed
  | some raw => ofFields platform catalog query (splitAll 0 (platform.newString raw))

/-! ## Pages -/

/-- `compare(entry, cursor) <= 0`. -/
def notAfter (cursor : Cursor) (e : CatalogEntry) : Bool :=
  decide (e.descriptor < cursor.descriptor ∨ e.descriptor = cursor.descriptor ∧
    e.occurrence ≤ cursor.occurrence)

/-- The loop of `after`. -/
def afterFrom (entries : List CatalogEntry) (cursor : Cursor) (low high : ℕ) : ℕ :=
  if low < high then
    let mid := (low + high) / 2
    if entries[mid]?.any (notAfter cursor) then afterFrom entries cursor (mid + 1) high
    else afterFrom entries cursor low mid
  else low
termination_by high - low

/-- The loop of `page`: the entries of the page, and whether there are more. -/
def collect (query : ClassQuery) : List CatalogEntry → List CatalogEntry → List CatalogEntry × Bool
  | [], page => (page, false)
  | e :: entries, page =>
    if !query.passes e.info then collect query entries page
    else if page.length = query.pageSize then (page, true)
    else collect query entries (page ++ [e])

/-- The index at which the loop of `page` starts. -/
def start (query : ClassQuery) : Except CursorError ℕ :=
  match query.cursor with
  | none => .ok 0
  | some token => do
    let cursor ← decode platform catalog query token
    pure (afterFrom catalog.entries cursor 0 catalog.entries.length)

/-- The page of what the loop found. -/
def pageOf (query : ClassQuery) (found : List CatalogEntry × Bool) : ClassPage where
  sessionId := catalog.sessionId
  logicalRevision := catalog.logicalRevision
  snapshotId := catalog.sessionId ++ str ":" ++ decimal catalog.logicalRevision ++ str ":" ++
    decimal catalog.publicationEpoch
  scope := "JADX_VISIBLE"
  sourceCoverage := "UNVERIFIED"
  items := found.1.map CatalogEntry.info
  nextCursor := if found.2 then found.1.getLast?.map (encode platform catalog query) else none
  complete := !found.2

def page (query : ClassQuery) : Except CursorError ClassPage := do
  let i ← start platform catalog query
  pure (pageOf platform catalog query (collect query (catalog.entries.drop i) []))

/-- The pages from a query on, each found with the cursor of the one before; their items in a row.
-/
inductive Walks : ClassQuery → List ClassInfo → Prop
  | last {query : ClassQuery} {p : ClassPage} : page platform catalog query = .ok p →
    p.nextCursor = none → Walks query p.items
  | next {query query' : ClassQuery} {p : ClassPage} {token : JString} {rest : List ClassInfo} :
      page platform catalog query = .ok p → p.nextCursor = some token →
        query.follow token = some query' →
      Walks query' rest → Walks query (p.items ++ rest)

end SymbolCatalog

end Libjadx
