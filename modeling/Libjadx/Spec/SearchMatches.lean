import Libjadx.Lib.Scan
import Libjadx.Spec.SearchService

/-!
# The matches of a search

`SearchService.materialize` from the view on: the loops over the classes, the member fragments and
the sources, in the iteration order of the maps, which is the order of the entries of a `Table`
here. What `Character`, `String` and `Pattern` answer where that needs the tables of Unicode is a
parameter.
-/

namespace Libjadx

/-! ## Positions in a source -/

namespace SourceCoordinates

/-- The starts of the lines after the first, of a source from `pos` on. -/
def lineStartsFrom : ℕ → JString → List ℕ
  | _, [] => []
  | pos, [c] => if c = 13 ∨ c = 10 then [pos + 1] else []
  | pos, c :: d :: s =>
    if c = 13 ∧ d = 10 then (pos + 2) :: lineStartsFrom (pos + 2) s
    else if c = 13 ∨ c = 10 then (pos + 1) :: lineStartsFrom (pos + 1) (d :: s)
    else lineStartsFrom (pos + 1) (d :: s)

def lineStarts (source : JString) : List ℕ := 0 :: lineStartsFrom 0 source

def isBoundary (source : JString) (offset : ℕ) : Bool :=
  offset ≤ source.length && !(0 < offset && offset < source.length &&
    source[offset - 1]?.any isHighSurrogate && source[offset]?.any isLowSurrogate)

/-- The loop of `point`, for the index of the line. -/
def lineIndex (lineStarts : List ℕ) (offset low high : ℕ) : ℕ :=
  if low + 1 < high then
    let mid := (low + high) / 2
    if lineStarts.getD mid 0 ≤ offset then lineIndex lineStarts offset mid high
    else lineIndex lineStarts offset low mid
  else low
termination_by high - low

/-- `codePointCount(start, stop)`. -/
def codePointCount (source : JString) (start stop : ℕ) : ℕ :=
  (codePoints ((source.take stop).drop start)).length

/-- `point`, of a boundary. -/
def point (source : JString) (offset : ℕ) : Point :=
  let starts := lineStarts source
  let low := lineIndex starts offset 0 starts.length
  ⟨offset, low + 1, codePointCount source (starts.getD low 0) offset⟩

/-- `range`, of two boundaries. -/
def range (source : JString) (start stop : ℕ) (sourceSnapshotId : JString) : SourceRange :=
  ⟨start, stop, point source start, point source stop, sourceSnapshotId⟩

end SourceCoordinates

namespace SearchService

open SourceCoordinates

/-- A compiled expression: the ranges that `find` gives one after the other. -/
abbrev Regex := JString → List (ℕ × ℕ)

/-- What `Character.isJavaIdentifierPart(int)`, `toLowerCase(Locale.ROOT)` and `equalsIgnoreCase`
answer, and what `Pattern.compile(Pattern.quote(query), CASE_INSENSITIVE)` does: whether it matches
the whole of a text, and the ranges that it finds in one. -/
structure Letters where
  isJavaIdentifierPart : ℕ → Bool
  toLowerCase : JString → JString
  equalsIgnoreCase : JString → JString → Bool
  quotedMatches : JString → JString → Bool
  quoted : JString → Regex

inductive MatchError
  | search (e : SearchError)
  /-- `SymbolRef.classRef` of an owner that is no class. -/
  | illegalArgument
  /-- A fragment without a source. -/
  | nullPointer

/-! ### Text -/

/-- `value.codePointAt(i)`. -/
def codePointAt (value : JString) (i : ℕ) : ℕ :=
  match value.drop i with
  | [] => 0
  | [c] => c.toNat
  | c :: d :: _ =>
    if isHighSurrogate c && isLowSurrogate d then 0x10000 + (c.toNat - 0xD800) * 0x400 +
      (d.toNat - 0xDC00) else c.toNat

/-- `value.codePointBefore(i)`. -/
def codePointBefore (value : JString) (i : ℕ) : ℕ :=
  if 2 ≤ i && value[i - 2]?.any isHighSurrogate && value[i - 1]?.any isLowSurrogate then codePointAt
    value (i - 2)
  else codePointAt value (i - 1)

/-- `bounded(value, start, stop)`. -/
def bounded (value : JString) (start stop : ℕ) : JString :=
  let limit := min stop (start + 160)
  let limit := if limit < stop && start < limit && value[limit - 1]?.any isHighSurrogate &&
    value[limit]?.any isLowSurrogate
    then limit - 1 else limit
  (value.take limit).drop start

/-- `value.contains(query)`. -/
def contains (value query : JString) : Bool :=
  (List.range (value.length + 1)).any fun i => query.isPrefixOf (value.drop i)

variable (letters : Letters)

def matchesValue (query : SearchQuery) (value : JString) : Bool :=
  match query.matchMode with
  | some .EXACT => if query.caseSensitive then value == query.query
      else letters.equalsIgnoreCase value query.query
  | some .CONTAINS =>
    if query.caseSensitive then contains value query.query
    else contains (letters.toLowerCase value) (letters.toLowerCase query.query)
  | _ => false

def firstMatch (query : SearchQuery) (values : List (Option JString)) : Option JString :=
  (values.filterMap fun value => value).find? (matchesValue letters query)

/-! ### Sources -/

def tokenBoundaries (source : JString) (start stop : ℕ) : Bool :=
  (start == 0 || !letters.isJavaIdentifierPart (codePointBefore source start)) &&
    (stop == source.length || !letters.isJavaIdentifierPart (codePointAt source stop))

/-- `source.indexOf(query, start)`, of a query that is not empty. -/
def occursAt (query source : JString) (i : ℕ) : Bool :=
  decide (i < source.length) && query.isPrefixOf (source.drop i)

/-- What is relied on of the quoted pattern of RE2/J, for a query that is not empty. -/
structure Letters.Quotes (letters : Letters) : Prop where
  /-- A letter and what it folds to have equally many units. -/
  length : ∀ query text, letters.quotedMatches query text = true → text.length = query.length
  /-- It reads code points. -/
  boundaries : ∀ query source, query ≠ [] → ∀ r ∈ letters.quoted query source,
    isBoundary source r.1 = true ∧ isBoundary source r.2 = true
  /-- It finds matches of the text, -/
  found : ∀ query source, query ≠ [] → ∀ r ∈ letters.quoted query source,
    r.1 ≤ r.2 ∧ letters.quotedMatches query ((source.take r.2).drop r.1) = true
  /-- each behind the one before, -/
  apart : ∀ query source, query ≠ [] → (letters.quoted query source).Pairwise fun r s => r.2 ≤ s.1
  /-- and none that is left out starts outside of one that it has found. -/
  leftmost : ∀ query source, query ≠ [] → ∀ i j, i ≤ j → isBoundary source i = true →
    isBoundary source j = true →
    letters.quotedMatches query ((source.take j).drop i) = true →
    (i, j) ∈ letters.quoted query source ∨ ∃ r ∈ letters.quoted query source, r.1 < i ∧ i < r.2

def sourcePattern (query : SearchQuery) (regex : Option Regex) : Option Regex :=
  regex.or (if query.caseSensitive then none else some (letters.quoted query.query))

/-- The starts that the loop over `indexOf` comes to. -/
def starts (query source : JString) : List ℕ :=
  Scan.scan (Scan.firstFrom (occursAt query source) source.length) query.length source.length 0

/-- What the loop over a source comes to. -/
def candidates (query : SearchQuery) (regex : Option Regex) (source : JString) : List (ℕ × ℕ) :=
  match sourcePattern letters query regex with
  | some find => (find source).filter fun r => r.1 ≠ r.2
  | none => (starts query.query source).map fun i => (i, i + query.query.length)

def acceptsRange (query : SearchQuery) (source : JString) (r : ℕ × ℕ) : Bool :=
  isBoundary source r.1 && isBoundary source r.2 &&
    (query.matchMode != some .EXACT || tokenBoundaries letters source r.1 r.2)

/-- The ranges of the hits in a source. -/
def ranges (query : SearchQuery) (regex : Option Regex) (source : JString) : List (ℕ × ℕ) :=
  (candidates letters query regex source).filter (acceptsRange letters query source)

/-! ### The loops -/

/-- What a step of the loops comes to: a hit, which is added unless its id was seen, or a failure.
-/
inductive Found
  | hit (id : Option JString) (hit : Hit)
  | fails (e : MatchError)

def classFound (query : SearchQuery) (info : ClassInfo) : List Found :=
  match firstMatch letters query
      [some info.originalDottedName, some info.ref.originalClassDescriptor,
          some info.displayQualifiedName] with
  | none => []
  | some matched => [.hit (some (str "C:" ++ info.ref.originalClassDescriptor))
      ⟨.CLASS_NAME, some info.ref, none, some info.displayQualifiedName, bounded matched 0 matched.length,
        query.matchMode, none, none⟩]

def memberFound (query : SearchQuery) (info : SymbolInfo) : List Found :=
  match firstMatch letters query
      [info.originalName, info.originalDescriptor,
        some (valueOf info.originalName ++ valueOf info.originalDescriptor),
        some info.displayName, some info.displayQualifiedName] with
  | none => []
  | some matched => [.hit (some (str "M:" ++ info.ref.toText))
      ⟨.MEMBER_NAME, some info.ref, none, some info.displayQualifiedName,
        bounded matched 0 matched.length,
        query.matchMode, none, none⟩]

/-- `SymbolRef.classRef(descriptor)`. -/
def classRef (descriptor : JString) : Option SymbolRef :=
  let fields : SymbolFields := ⟨.CLASS, descriptor, none, none, none⟩
  if h : fields.validate.isOk = true then some ⟨fields, h⟩ else none

def sourceFound (query : SearchQuery) (regex : Option Regex) (fragment : SourceFragment) :
    List Found :=
  match fragment.source, classRef fragment.ownerDescriptor with
  | none, _ => [.fails .nullPointer]
  | some _, none => [.fails .illegalArgument]
  | some source, some owner => (ranges letters query regex source).map fun r => .hit none
      ⟨.SOURCE_TEXT, none, some owner, none, bounded source r.1 r.2, query.matchMode,
        some (range source r.1 r.2 fragment.sourceSnapshotId), some fragment.sourceSnapshotId⟩

def domainFound (query : SearchQuery) (regex : Option Regex) (view : SearchIndexStore.View) :
    Domain → List Found
  | .CLASS_NAME => view.classes.flatMap (classFound letters query)
  | .MEMBER_NAME => view.members.entries.flatMap fun e => e.2.flatMap (memberFound letters query)
  | .SOURCE_TEXT => view.sources.entries.flatMap fun e => sourceFound letters query regex e.2
  | .STRING_LITERAL => []

/-- The hits as they are added, under the limits. -/
def collect : List Found → List JString → List Hit → ℕ → Except MatchError (List Hit)
  | [], _, hits, _ => .ok hits
  | .fails e :: _, _, _, _ => .error e
  | .hit id hit :: found, unique, hits, currentBytes =>
    if id.any unique.contains then collect found unique hits currentBytes
    else
      let next := currentBytes + hitBytes hit
      if MAX_HITS ≤ hits.length ∨ MAX_HIT_BYTES < next then .error (.search .tooManyMatches)
      else collect found (id.toList ++ unique) (hits ++ [hit]) next

/-- `materialize`. -/
def materializeView (query : SearchQuery) (regex : Option Regex) (view : SearchIndexStore.View) :
    Except MatchError (List Hit) :=
  (collect (query.domains.flatMap (domainFound letters query regex view)) [] [] 0).map fun hits =>
    hits.mergeSort fun a b => compareHits a b != .gt

end SearchService

end Libjadx
