import Libjadx.Spec.Jobs

/-!
# The native project document

The native code data (renames and comments) and the document that holds it. The document's
JSON tree is kept as the entries of `codeData.renames` and `codeData.comments`: a record the
codec knows, `none` for a JSON `null`, and the text of the members the codec does not know,
which an edit carries along. The other members of the tree are never touched.
-/

namespace Libjadx

abbrev Path := JString

/-! ## Code data -/

inductive RefType
  | CLASS | FIELD | METHOD | PKG
deriving DecidableEq, Repr

/-- `JadxNodeRef`: the original declaration a record belongs to. -/
structure NodeRef where
  refType : RefType
  declClass : JString
  shortId : Option JString
deriving DecidableEq

inductive CodeRefType
  | MTH_ARG | VAR | CATCH | INSN
deriving DecidableEq, Repr

/-- `JadxCodeRef`: a place inside a method. -/
structure CodeRef where
  attachType : CodeRefType
  index : ℤ
deriving DecidableEq

inductive CommentStyle
  | LINE | BLOCK | BLOCK_CONDENSED | JAVADOC | JAVADOC_CONDENSED
deriving DecidableEq, Repr

structure CodeRename where
  nodeRef : Option NodeRef
  codeRef : Option CodeRef
  newName : Option JString
deriving DecidableEq

structure CodeComment where
  nodeRef : Option NodeRef
  codeRef : Option CodeRef
  comment : Option JString
  style : CommentStyle
deriving DecidableEq

/-- `JadxCodeData`; an entry may be `null`. -/
structure CodeData where
  renames : List (Option CodeRename)
  comments : List (Option CodeComment)
deriving DecidableEq

/-! ## Entries -/

/-- A JSON entry: the record, and the members the codec does not know. -/
structure Entry (α : Type) where
  value : Option α
  members : JString
deriving DecidableEq

namespace Entry

variable {α : Type}

/-- What the codec writes. -/
def fresh (value : Option α) : Entry α := ⟨value, []⟩

/-- `JsonNull.getAsJsonObject()`. -/
def notAnObject : Throwable := .illegalState "Not a JSON Object: null"

/-- `preserveUnknownEntryFields`: each written record takes over the first unused entry of the
same identity. -/
def preserve (same : α → α → Bool) : List (Entry α) → List (Option α) → Except Throwable
    (List (Entry α))
  | _, [] => .ok []
  | _, none :: _ => .error notAnObject
  | old, some value :: updated =>
    let sameIdentity : Entry α → Bool := fun e => e.value.any (same value)
    match old.find? sameIdentity with
    | some e => do
      let rest ← preserve same (old.eraseP sameIdentity) updated
      pure (⟨some value, e.members⟩ :: rest)
    | none => do
      let rest ← preserve same old updated
      pure (fresh (some value) :: rest)

/-- One member of `codeData` after `setCodeData`: where the tree lacks it, it is written as is. -/
def merge (same : α → α → Bool) (old : Option (List (Entry α))) (updated : List (Option α)) :
    Except Throwable (List (Entry α)) :=
  match old with
  | none => .ok (updated.map fresh)
  | some entries => preserve same entries updated

end Entry

def sameRename (a b : CodeRename) : Bool := a.nodeRef == b.nodeRef && a.codeRef == b.codeRef

def sameComment (a b : CodeComment) : Bool :=
  a.nodeRef == b.nodeRef && a.codeRef == b.codeRef && a.style == b.style

/-- The text of a `codeData` member. -/
structure CodeDataJson where
  renames : List (Entry CodeRename)
  comments : List (Entry CodeComment)
deriving DecidableEq

/-- `new Gson().toJsonTree(codeData).toString()`. -/
def CodeData.toJson (c : CodeData) : CodeDataJson :=
  ⟨c.renames.map Entry.fresh, c.comments.map Entry.fresh⟩

/-! ## The document -/

/-- A native `.jadx` document. The first two members of its tree may be missing, as long as
there is nothing to write there. -/
structure Document where
  renames : Option (List (Entry CodeRename))
  comments : Option (List (Entry CodeComment))
  projectPath : Path
  inputFiles : List Path
  mappingsPath : Option Path
  codeData : CodeData
  renames_absent : renames = none → codeData.renames = []
  comments_absent : comments = none → codeData.comments = []
deriving DecidableEq

namespace Document

/-- `readCodeData`. -/
def readCodeData (renames : Option (List (Entry CodeRename)))
    (comments : Option (List (Entry CodeComment))) :
    CodeData :=
  ⟨(renames.getD []).map Entry.value, (comments.getD []).map Entry.value⟩

/-- The constructor: the code data is read from the tree. -/
def read (renames : Option (List (Entry CodeRename))) (comments : Option (List (Entry CodeComment)))
    (projectPath : Path) (inputFiles : List Path) (mappingsPath : Option Path) : Document where
  renames := renames
  comments := comments
  projectPath := projectPath
  inputFiles := inputFiles
  mappingsPath := mappingsPath
  codeData := readCodeData renames comments
  renames_absent h := by simp [readCodeData, h]
  comments_absent h := by simp [readCodeData, h]

def setCodeData (d : Document) (codeData : CodeData) : Except Throwable Document := do
  let renames ← Entry.merge sameRename d.renames codeData.renames
  let comments ← Entry.merge sameComment d.comments codeData.comments
  pure { d with
    renames := some renames, comments := some comments, codeData := codeData
    renames_absent := nofun, comments_absent := nofun }

/-- A copy with other code data. -/
def withCodeData (d : Document) (candidate : CodeData) : Except Throwable Document :=
  d.setCodeData candidate

/-- The tree with the code data written into it. -/
def toJsonTree (d : Document) : Except Throwable Document := d.withCodeData d.codeData

/-- `toJsonTree().get("codeData").toString()`. -/
def codeDataJson (d : Document) : Except Throwable CodeDataJson := do
  let tree ← d.toJsonTree
  pure ⟨tree.renames.getD [], tree.comments.getD []⟩

def withMappingsPath (d : Document) (mappings : Option Path) : Except Throwable Document := do
  let updated ← d.toJsonTree
  pure (read updated.renames updated.comments d.projectPath d.inputFiles mappings)

/-- The document as it is at another path. -/
def rebasedTo (d : Document) (target : Path) : Except Throwable Document := do
  let rebased ← d.toJsonTree
  pure (read rebased.renames rebased.comments target d.inputFiles d.mappingsPath)

/-- The document of raw inputs, held in memory until the first save. -/
def newFromInputs (futurePath : Path) (inputs : List Path) : Document :=
  read (some []) (some []) futurePath inputs none

end Document

end Libjadx
