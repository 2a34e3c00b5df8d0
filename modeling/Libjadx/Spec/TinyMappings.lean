import Libjadx.Spec.Symbols
import Libjadx.Spec.Token

/-!
# Strict Tiny v2 mappings

`JadxTinyMappings.parse`: the text is admitted line by line (`validateRecords`), and then every call
of the reader is checked before the tree has it (`CheckedVisitor`). The reader and the tree are
those of the mapping library, and parameters here.
-/

namespace Libjadx

namespace MappingExportDtos

def MAX_ENTRIES : ℕ := 10000

def MAX_BYTES : ℕ := 4194304

def MAX_MEMORY : ℕ := 16777216

def MAX_STRING : ℕ := 16384

/-- The problems of mappings: `unsupported` names its category. -/
inductive Problem
  | unsupported (category : JString)
  | limit
deriving DecidableEq

structure Counts where
  classes : ℕ
  methods : ℕ
  fields : ℕ
  comments : ℕ
deriving DecidableEq

end MappingExportDtos

namespace JadxTinyMappings

open MappingExportDtos

/-- What is thrown on the way: a problem, or an `IllegalArgumentException` or an `IOException`. -/
inductive Thrown
  | problem (p : Problem)
  | invalid

def unsupported {α : Type} (category : String) : Except Problem α :=
  .error (.unsupported (str category))

/-! ## Records -/

def TAB : JChar := chr '\t'

def NEWLINE : JChar := chr '\n'

def escapedNames : JString := TAB :: str "escaped-names"

def validateHeader (header : JString) : Except Problem Unit :=
  if MAX_STRING * 2 + 32 < header.length then .error .limit
  else
    match splitAll TAB header with
    | [tiny, major, minor, source, destination] =>
      if tiny != str "tiny" || major != str "2" || minor != str "0" || isBlank source ||
          isBlank destination || source == destination then
        unsupported "MAPPING_NAMESPACES_OR_FORMAT"
      else .ok ()
    | _ => unsupported "MAPPING_NAMESPACES_OR_FORMAT"

/-- The lines after the first one. The end of the text is no line. -/
def bodyLines (body : JString) : List JString :=
  let lines := splitAll NEWLINE body
  if lines.getLast? = some [] then lines.dropLast else lines

/-- The kinds of lines: a class, a member, the comment of a class or of a member, and the property
of the first line. -/
inductive Line
  | declaration (kind : SymbolKind)
  | comment (depth : ℕ)
  | escapedNames
deriving DecidableEq

def Line.isComment : Line → Bool
  | .comment _ => true
  | _ => false

def columnsOf (line : JString) : List JString := splitAll TAB line

/-- The kind of a line of the body, if it is one that is admitted. -/
def lineOf (lineNumber : ℕ) (line : JString) : Option Line :=
  match columnsOf line with
  | [[], b, _] => if b = str "c" then some (.comment 0) else none
  | [a, _, _] => if a = str "c" then some (.declaration .CLASS) else none
  | [[], b, _, _, _] =>
    if b = str "m" then some (.declaration .METHOD) else if b = str "f" then some
      (.declaration .FIELD) else none
  | [[], [], c, _] => if c = str "c" then some (.comment 1) else none
  | _ => if lineNumber = 1 ∧ line = escapedNames then some .escapedNames else none

/-- The depth of the declaration until now, with a line more; without one there is no class yet. -/
def nextDepth (depth : Option ℕ) : Line → Except Problem (Option ℕ)
  | .declaration .CLASS => .ok (some 0)
  | .declaration _ => if depth = none then unsupported "ORPHAN_MAPPING_MEMBER" else .ok (some 1)
  | .comment commentDepth => if depth ≠ some commentDepth then unsupported "ORPHAN_MAPPING_COMMENT"
      else .ok depth
  | .escapedNames => .ok depth

/-- The lines from a number on. -/
def validateLines : List JString → ℕ → Option ℕ → Except Problem Unit
  | [], _, _ => .ok ()
  | line :: lines, lineNumber, depth =>
    if MAX_ENTRIES + 1 < lineNumber then .error .limit
    else if MAX_STRING * 5 < line.length then .error .limit
    else
      match lineOf lineNumber line with
      | none => unsupported "UNKNOWN_OR_UNSUPPORTED_MAPPING_RECORD"
      | some l => do
        let depth ← nextDepth depth l
        validateLines lines (lineNumber + 1) depth

/-- The first line, and what is behind it. -/
def header (text : JString) : JString := text.take (text.indexOf NEWLINE)

def body (text : JString) : JString := text.drop (text.indexOf NEWLINE + 1)

def validateRecords (text : JString) : Except Problem Unit := do
  validateHeader (header text)
  validateLines (bodyLines (body text)) 1 none

/-! ## Calls of the reader -/

/-- A call of a visitor. -/
inductive Visit
  | namespaces (source : JString) (destinations : List JString)
  | metadata (key : JString) (value : Option JString)
  | cls (name : JString)
  | method (name descriptor : JString)
  | field (name descriptor : JString)
  | methodArg
  | methodVar
  | dstName (kind : SymbolKind) (name : Option JString)
  | comment (kind : SymbolKind) (text : JString)

structure Budget where
  memory : ℕ
  entries : ℕ

def Budget.bytes (b : Budget) (count : ℕ) : Except Problem Budget :=
  if MAX_MEMORY < b.memory + count then .error .limit else .ok { b with memory := b.memory + count }

def Budget.entry (b : Budget) : Except Problem Budget :=
  if MAX_ENTRIES < b.entries + 1 then .error .limit else
    { b with entries := b.entries + 1 }.bytes 1024

/-- The loop over the characters of a string. -/
def representable : JString → Bool
  | [] => true
  | [c] => !(c == 0 || c == chr '\r' || (isISOControl c && c != NEWLINE && c != TAB)) &&
      !isHighSurrogate c && !isLowSurrogate c
  | c :: d :: s =>
    if c == 0 || c == chr '\r' || (isISOControl c && c != NEWLINE && c != TAB) then false
    else if isHighSurrogate c then isLowSurrogate d && representable s
    else !isLowSurrogate c && representable (d :: s)

def Budget.string (b : Budget) : Option JString → Except Problem Budget
  | none => .ok b
  | some value =>
    if MAX_STRING < value.length then .error .limit
    else do
      let b ← b.bytes (16 * value.length + 64)
      if representable value then .ok b else unsupported "UNREPRESENTABLE_STRING"

/-- The fields of the checked visitor; the tree is what it forwards to. -/
structure Checked (T : Type) where
  budget : Budget
  keys : List JString
  owner : Option JString
  current : Option JString
  tree : T

def NUL : JString := [0]

def problem {α : Type} : Except Problem α → Except Thrown α
  | .ok a => .ok a
  | .error p => .error (.problem p)

/-- An `IllegalArgumentException` of the core. -/
def illegal {α : Type} : Except String α → Except Thrown α
  | .ok a => .ok a
  | .error _ => .error .invalid

def Checked.string {T : Type} (v : Checked T) (value : Option JString) :
    Except Thrown (Checked T) := do
  let budget ← problem (v.budget.string value)
  pure { v with budget := budget }

def Checked.key {T : Type} (v : Checked T) (key : JString) : Except Thrown (Checked T) := do
  let budget ← problem v.budget.entry
  if v.keys.contains key then problem (unsupported "DUPLICATE_MAPPING_KEY")
  else pure { v with budget := budget, keys := v.keys ++ [key], current := some key }

def classDescriptor (name : Option JString) : JString := str "L" ++ valueOf name ++ str ";"

def kindLetter : SymbolKind → JString
  | .CLASS => str "C"
  | .METHOD => str "M"
  | .FIELD => str "F"

def memberKey (kind : SymbolKind) (owner : Option JString) (name descriptor : JString) : JString :=
  kindLetter kind ++ NUL ++ valueOf owner ++ NUL ++ name ++ NUL ++ descriptor

def commentKey (current : Option JString) : JString := str "comment" ++ NUL ++ valueOf current

/-- The tree of the library. -/
structure MappingTree (T : Type) where
  new : T
  visit : T → Visit → T

variable {T : Type} (tree : MappingTree T)

/-- What a method and a field are checked for. -/
def Checked.member (v : Checked T) (kind : SymbolKind) (name descriptor : JString) :
    Except Thrown (Checked T) := do
  let v ← v.string (some name)
  let v ← v.string (some descriptor)
  illegal (SymbolFields.validate ⟨kind, classDescriptor v.owner, none, some name, some descriptor⟩)
  v.key (memberKey kind v.owner name descriptor)

/-- The checks before a call is forwarded. -/
def Checked.check (v : Checked T) : Visit → Except Thrown (Checked T)
  | .namespaces source destinations =>
    match destinations with
    | [destination] =>
      if source = destination then problem (unsupported "MAPPING_NAMESPACES")
      else do
        let v ← v.string (some source)
        v.string (some destination)
    | _ => problem (unsupported "MAPPING_NAMESPACES")
  | .metadata _ _ => problem (unsupported "MAPPING_METADATA")
  | .cls name => do
    let v ← v.string (some name)
    illegal (validateClassDescriptor (classDescriptor (some name)))
    { v with owner := some name }.key (kindLetter .CLASS ++ NUL ++ name)
  | .method name descriptor => v.member .METHOD name descriptor
  | .field name descriptor => v.member .FIELD name descriptor
  | .methodArg => problem (unsupported "MAPPING_ARGUMENT")
  | .methodVar => problem (unsupported "MAPPING_VARIABLE")
  | .dstName kind name => do
    let v ← v.string name
    match name with
    | none => pure v
    | some n =>
      illegal (match kind with
        | .CLASS => validateClassDescriptor (classDescriptor (some n))
        | .METHOD => SymbolFields.validate ⟨.METHOD, classDescriptor v.owner, none, some n,
            some (str "()V")⟩
        | .FIELD => SymbolFields.validate ⟨.FIELD, classDescriptor v.owner, none, some n, some (str "I")⟩)
      pure v
  | .comment _ text => do
    let budget ← problem v.budget.entry
    let v ← { v with budget := budget }.string (some text)
    if v.keys.contains (commentKey v.current) then problem (unsupported "DUPLICATE_MAPPING_COMMENT")
    else pure { v with keys := v.keys ++ [commentKey v.current] }

def Checked.visit (v : Checked T) (call : Visit) : Except Thrown (Checked T) := do
  let v ← v.check call
  pure { v with tree := tree.visit v.tree call }

def Checked.visitAll (v : Checked T) : List Visit → Except Thrown (Checked T)
  | [] => .ok v
  | call :: calls => do
    let v ← v.visit tree call
    visitAll v calls

/-- The calls that the reader makes for a text, and whether it gets to the end. -/
structure MappingReader where
  read : JString → List Visit × Bool

variable (reader : MappingReader)

def parse (raw : List UInt8) (budget : Budget) : Except Problem T :=
  if MAX_BYTES < raw.length then .error .limit
  else
    match Utf8.decode raw with
    | none => unsupported "MALFORMED_MAPPING_ENCODING"
    | some points => do
      let text := ofCodePoints points
      validateRecords text
      let (calls, complete) := reader.read text
      match Checked.visitAll tree ⟨budget, [], none, none, tree.new⟩ calls with
      | .ok v => if complete then .ok v.tree else unsupported "MALFORMED_MAPPING_SOURCE"
      | .error (.problem p) => .error p
      | .error .invalid => unsupported "MALFORMED_MAPPING_SOURCE"

/-! ## Trees -/

structure MemberView where
  srcName : JString
  srcDesc : JString
  comment : Option JString

structure ClassView where
  srcName : JString
  comment : Option JString
  fields : List MemberView
  methods : List MemberView

def commentCount (comment : Option JString) : ℕ := if comment.isSome then 1 else 0

def counts (classes : List ClassView) : Counts where
  classes := classes.length
  methods := (classes.map (·.methods.length)).sum
  fields := (classes.map (·.fields.length)).sum
  comments := (classes.map fun c => commentCount c.comment + (c.fields.map fun f =>
    commentCount f.comment).sum +
    (c.methods.map fun m => commentCount m.comment).sum).sum

def modifyLast {α : Type} (f : α → α) : List α → List α
  | [] => []
  | [a] => [f a]
  | a :: b :: l => a :: modifyLast f (b :: l)

/-- What a call adds to a tree that has none of it. -/
def ClassView.lay (classes : List ClassView) : Visit → List ClassView
  | .cls name => classes ++ [⟨name, none, [], []⟩]
  | .method name descriptor =>
      modifyLast (fun c => { c with methods := c.methods ++ [⟨name, descriptor, none⟩] }) classes
  | .field name descriptor =>
      modifyLast (fun c => { c with fields := c.fields ++ [⟨name, descriptor, none⟩] }) classes
  | .comment .CLASS text => modifyLast (fun c => { c with comment := some text }) classes
  | .comment .METHOD text =>
    modifyLast (fun c => { c with
      methods := modifyLast (fun m => { m with comment := some text }) c.methods }) classes
  | .comment .FIELD text =>
    modifyLast (fun c => { c with
      fields := modifyLast (fun m => { m with comment := some text }) c.fields }) classes
  | _ => classes

/-- What names a declaration. -/
inductive Key
  | cls (name : JString)
  | member (kind : SymbolKind) (owner : Option JString) (name descriptor : JString)
deriving DecidableEq

/-- What a call declares, and the class that the next ones are in. -/
def Visit.declares (owner : Option JString) : Visit → Option Key
  | .cls name => some (.cls name)
  | .method name descriptor => some (.member .METHOD owner name descriptor)
  | .field name descriptor => some (.member .FIELD owner name descriptor)
  | _ => none

def Visit.ownerOf (owner : Option JString) : Visit → Option JString
  | .cls name => some name
  | _ => owner

/-- The declarations of calls, after the last class. -/
def declared : Option JString → List Visit → List Key
  | _, [] => []
  | owner, call :: calls => (call.declares owner).toList ++ declared (call.ownerOf owner) calls

/-! ## What is admitted -/

/-- A record: a declaration, or a comment of one. -/
inductive Record
  | declaration (kind : SymbolKind)
  | comment (subject : SymbolKind)
deriving DecidableEq

/-- The records of lines, after the kind of the last declaration. -/
def recordsFrom : SymbolKind → List Line → List Record
  | _, [] => []
  | _, .declaration kind :: lines => .declaration kind :: recordsFrom kind lines
  | last, .comment _ :: lines => .comment last :: recordsFrom last lines
  | last, .escapedNames :: lines => recordsFrom last lines

def Visit.record : Visit → Option Record
  | .cls _ => some (.declaration .CLASS)
  | .method _ _ => some (.declaration .METHOD)
  | .field _ _ => some (.declaration .FIELD)
  | .comment kind _ => some (.comment kind)
  | _ => none

/-- Every member is after a class, and every comment is about the last declaration. -/
def Orderly : Option SymbolKind → List Record → Prop
  | _, [] => True
  | _, .declaration .CLASS :: records => Orderly (some .CLASS) records
  | last, .declaration kind :: records => last.isSome ∧ Orderly (some kind) records
  | last, .comment subject :: records => last = some subject ∧ Orderly last records

/-- The tree holds what was visited, in the order of the calls, where these are in order and no
declaration is visited twice. -/
structure Keeps (view : T → List ClassView) : Prop where
  view_visits : ∀ calls, Orderly none (calls.filterMap Visit.record) → (declared none calls).Nodup →
    view (calls.foldl tree.visit tree.new) = calls.foldl ClassView.lay []

/-- The tag of a kind of line, with the tabs before it and after it. -/
def Line.opening : Line → JString
  | .declaration .CLASS => str "c\t"
  | .declaration .METHOD => str "\tm\t"
  | .declaration .FIELD => str "\tf\t"
  | .comment 0 => str "\tc\t"
  | .comment _ => str "\t\tc\t"
  | .escapedNames => JadxTinyMappings.escapedNames

/-- The kinds of the lines of a text, if all of them are admitted. -/
def kindsFrom : ℕ → List JString → Option (List Line)
  | _, [] => some []
  | n, line :: lines => do
    let l ← lineOf n line
    let rest ← kindsFrom (n + 1) lines
    pure (l :: rest)

def depthOf : SymbolKind → ℕ
  | .CLASS => 0
  | _ => 1

/-- Every member is under a class, and every comment right under a declaration of one depth less. -/
def Nested : Option SymbolKind → List Line → Prop
  | _, [] => True
  | _, .declaration .CLASS :: lines => Nested (some .CLASS) lines
  | last, .declaration kind :: lines => last.isSome ∧ Nested (some kind) lines
  | last, .comment depth :: lines => last.map depthOf = some depth ∧ Nested last lines
  | last, .escapedNames :: lines => Nested last lines

/-- A text of which nothing is skipped. -/
structure Strict (text : JString) (lines : List Line) : Prop where
  kinds : kindsFrom 1 (bodyLines (body text)) = some lines
  nested : Nested none lines
  number : lines.length ≤ MAX_ENTRIES + 1

/-- The reader makes a call for every record of such a text, in order and with the kind of what a
comment is about. -/
structure Delivers : Prop where
  records : ∀ text lines, Strict text lines → ∀ calls, reader.read text = (calls, true) →
    calls.filterMap Visit.record = recordsFrom .CLASS lines

/-- A class by its parts: how many comments it has, and each of its fields and methods. -/
structure Outline where
  comments : ℕ
  fields : List ℕ
  methods : List ℕ
deriving DecidableEq

def Outline.add (outlines : List Outline) : Record → List Outline
  | .declaration .CLASS => outlines ++ [⟨0, [], []⟩]
  | .declaration .METHOD => modifyLast (fun o => { o with methods := o.methods ++ [0] }) outlines
  | .declaration .FIELD => modifyLast (fun o => { o with fields := o.fields ++ [0] }) outlines
  | .comment .CLASS => modifyLast (fun o => { o with comments := o.comments + 1 }) outlines
  | .comment .METHOD => modifyLast (fun o => { o with methods := modifyLast (· + 1) o.methods }) outlines
  | .comment .FIELD => modifyLast (fun o => { o with fields := modifyLast (· + 1) o.fields }) outlines

def ClassView.outline (c : ClassView) : Outline :=
  ⟨commentCount c.comment, c.fields.map fun f => commentCount f.comment, c.methods.map fun m =>
    commentCount m.comment⟩

/-- The tree has every record of the lines, each under the declaration that it is under there. -/
structure Exact (lines : List Line) (classes : List ClassView) : Prop where
  outline : classes.map ClassView.outline = (recordsFrom .CLASS lines).foldl Outline.add []
  counts : JadxTinyMappings.counts classes = ⟨lines.count (.declaration .CLASS),
    lines.count (.declaration .METHOD),
    lines.count (.declaration .FIELD), lines.countP Line.isComment⟩

end JadxTinyMappings

end Libjadx
