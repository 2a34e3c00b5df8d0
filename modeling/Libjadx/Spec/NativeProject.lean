import Libjadx.Lib.Members
import Libjadx.Spec.Document
import Libjadx.Spec.UnixPath

/-!
# Native project documents

`NativeProjectDocument` over the JSON tree that it keeps. The codec knows a few members of a record
and drops the others; an edit writes the records of the code data and lays each over the record of
the old tree that has its references and its style. `Spec/Document` is what the repository needs of
it: its entries stand for these records.
-/

namespace Libjadx

/-! ## JSON trees -/

inductive JsonElement
  | null
  | bool (b : Bool)
  | number (text : JString)
  | string (text : JString)
  | array (elements : List JsonElement)
  | object (members : List (JString × JsonElement))

abbrev JsonObject := List (JString × JsonElement)

/-- Java's `null`, or a JSON `null`. -/
def JsonElement.isNull : Option JsonElement → Bool
  | none => true
  | some .null => true
  | some _ => false

/-- What Gson's adapters of single values do, as far as the documents rely on it: what they make of
an element of another kind is left open. -/
structure Gson where
  /-- A `String`. -/
  readString : JsonElement → Except Throwable (Option JString)
  /-- The name of an enum constant, known or not. -/
  readName : JsonElement → Except Throwable (Option JString)
  /-- An `int`. -/
  readInt : JsonElement → Except Throwable (Option Int32)
  getAsString : JsonElement → Except Throwable JString
  readString_null : readString .null = .ok none
  readString_string : ∀ s, readString (.string s) = .ok (some s)
  readName_null : readName .null = .ok none
  readName_string : ∀ s, readName (.string s) = .ok (some s)
  readName_some : ∀ {j s}, readName j = .ok (some s) → getAsString j = .ok s
  readName_none : ∀ {j}, readName j = .ok none → j = .null
  readInt_number : ∀ n : Int32, readInt (.number (decimal n.toInt)) = .ok (some n)

/-! ## Records -/

def RefType.all : List RefType := [.CLASS, .FIELD, .METHOD, .PKG]

def RefType.name : RefType → JString
  | .CLASS => str "CLASS"
  | .FIELD => str "FIELD"
  | .METHOD => str "METHOD"
  | .PKG => str "PKG"

def CodeRefType.all : List CodeRefType := [.MTH_ARG, .VAR, .CATCH, .INSN]

def CodeRefType.name : CodeRefType → JString
  | .MTH_ARG => str "MTH_ARG"
  | .VAR => str "VAR"
  | .CATCH => str "CATCH"
  | .INSN => str "INSN"

def CommentStyle.all : List CommentStyle :=
  [.LINE, .BLOCK, .BLOCK_CONDENSED, .JAVADOC, .JAVADOC_CONDENSED]

def CommentStyle.name : CommentStyle → JString
  | .LINE => str "LINE"
  | .BLOCK => str "BLOCK"
  | .BLOCK_CONDENSED => str "BLOCK_CONDENSED"
  | .JAVADOC => str "JAVADOC"
  | .JAVADOC_CONDENSED => str "JAVADOC_CONDENSED"

/-- A reference as the codec reads it: `none` is `null`. -/
structure JadxNodeRef where
  refType : Option RefType
  declClass : Option JString
  shortId : Option JString
deriving DecidableEq

structure JadxCodeRef where
  attachType : Option CodeRefType
  index : Int32
deriving DecidableEq

structure JadxCodeRename where
  nodeRef : Option JadxNodeRef
  codeRef : Option JadxCodeRef
  newName : Option JString
deriving DecidableEq

structure JadxCodeComment where
  nodeRef : Option JadxNodeRef
  codeRef : Option JadxCodeRef
  comment : Option JString
  style : Option CommentStyle
deriving DecidableEq

/-- Both lists, and every entry of them, may be `null`. -/
structure JadxCodeData where
  comments : Option (List (Option JadxCodeComment))
  renames : Option (List (Option JadxCodeRename))
deriving DecidableEq

/-- `new JadxCodeData()`. -/
def JadxCodeData.new : JadxCodeData := ⟨some [], some []⟩

/-! ## The codec -/

namespace Gson

/-- A `JsonSyntaxException`. -/
def syntaxError : Throwable := .exception

variable (gson : Gson)

/-- An unknown constant is `null`. -/
def readEnum {α : Type} (all : List α) (name : α → JString) (j : JsonElement) :
    Except Throwable (Option α) :=
  (gson.readName j).map fun text => text.bind fun text => all.find? fun a => name a == text

/-- A member that is missing leaves the field as the constructor set it. -/
def readMember {α : Type} (name : JString) (read : JsonElement → Except Throwable (Option α))
    (default : Option α)
    (o : JsonObject) : Except Throwable (Option α) :=
  match Members.get name o with
  | none => .ok default
  | some j => read j

def readObject {α : Type} (read : JsonObject → Except Throwable α) :
    JsonElement → Except Throwable (Option α)
  | .null => .ok none
  | .object o => (read o).map some
  | _ => .error syntaxError

def readElements {α : Type} (read : JsonElement → Except Throwable (Option α)) :
    List JsonElement → Except Throwable (List (Option α))
  | [] => .ok []
  | j :: elements => do
    let value ← read j
    let rest ← readElements read elements
    pure (value :: rest)

def readList {α : Type} (read : JsonElement → Except Throwable (Option α)) :
    JsonElement → Except Throwable (Option (List (Option α)))
  | .null => .ok none
  | .array elements => (readElements read elements).map some
  | _ => .error syntaxError

def readNodeRef (o : JsonObject) : Except Throwable JadxNodeRef := do
  let refType ← readMember (str "refType") (gson.readEnum RefType.all RefType.name) none o
  let declClass ← readMember (str "declClass") gson.readString none o
  let shortId ← readMember (str "shortId") gson.readString none o
  pure ⟨refType, declClass, shortId⟩

/-- A `null` index leaves the 0. -/
def readCodeRef (o : JsonObject) : Except Throwable JadxCodeRef := do
  let attachType ← readMember (str "attachType") (gson.readEnum CodeRefType.all CodeRefType.name) none o
  let index ← readMember (str "index") gson.readInt none o
  pure ⟨attachType, index.getD 0⟩

def readRename (o : JsonObject) : Except Throwable JadxCodeRename := do
  let nodeRef ← readMember (str "nodeRef") (readObject gson.readNodeRef) none o
  let codeRef ← readMember (str "codeRef") (readObject gson.readCodeRef) none o
  let newName ← readMember (str "newName") gson.readString none o
  pure ⟨nodeRef, codeRef, newName⟩

def readComment (o : JsonObject) : Except Throwable JadxCodeComment := do
  let nodeRef ← readMember (str "nodeRef") (readObject gson.readNodeRef) none o
  let codeRef ← readMember (str "codeRef") (readObject gson.readCodeRef) none o
  let comment ← readMember (str "comment") gson.readString none o
  let style ← readMember (str "style") (gson.readEnum CommentStyle.all CommentStyle.name)
    (some .LINE) o
  pure ⟨nodeRef, codeRef, comment, style⟩

def readCodeDataObject (o : JsonObject) : Except Throwable JadxCodeData := do
  let comments ← readMember (str "comments") (readList (readObject gson.readComment)) (some []) o
  let renames ← readMember (str "renames") (readList (readObject gson.readRename)) (some []) o
  pure ⟨comments, renames⟩

/-- A field that is `null` is not written. -/
def written (name : String) (value : Option JsonElement) : JsonObject :=
  (value.map fun j => (str name, j)).toList

end Gson

open Gson (written)

def JadxNodeRef.toJson (r : JadxNodeRef) : JsonObject :=
  written "refType" (r.refType.map fun t => .string t.name) ++ written "declClass"
    (r.declClass.map .string) ++
    written "shortId" (r.shortId.map .string)

def JadxCodeRef.toJson (r : JadxCodeRef) : JsonObject :=
  written "attachType" (r.attachType.map fun t => .string t.name) ++ written "index"
    (some (.number (decimal r.index.toInt)))

def JadxCodeRename.toJson (r : JadxCodeRename) : JsonObject :=
  written "nodeRef" (r.nodeRef.map fun n => .object n.toJson) ++ written "codeRef"
    (r.codeRef.map fun c => .object c.toJson) ++
    written "newName" (r.newName.map .string)

def JadxCodeComment.toJson (c : JadxCodeComment) : JsonObject :=
  written "nodeRef" (c.nodeRef.map fun n => .object n.toJson) ++ written "codeRef"
    (c.codeRef.map fun r => .object r.toJson) ++
    written "comment" (c.comment.map .string) ++ written "style" (c.style.map fun s =>
      .string s.name)

/-- An entry of a list; `null` is a JSON `null`. -/
def JsonElement.entry {α : Type} (toJson : α → JsonObject) : Option α → JsonElement
  | none => .null
  | some a => .object (toJson a)

def JadxCodeData.toJson (c : JadxCodeData) : JsonObject :=
  written "comments" (c.comments.map fun l =>
    .array (l.map (JsonElement.entry JadxCodeComment.toJson))) ++
    written "renames" (c.renames.map fun l => .array (l.map (JsonElement.entry JadxCodeRename.toJson)))

/-! ## The document -/

structure NativeProjectDocument where
  projectPath : UnixPath
  root : JsonObject
  codeData : JadxCodeData

namespace NativeProjectDocument

def CODE_DATA_KEY : JString := str "codeData"

variable (gson : Gson) (cwd : List JString)

def readCodeData (root : JsonObject) : Except Throwable JadxCodeData :=
  match Members.get CODE_DATA_KEY root with
  | none => .ok JadxCodeData.new
  | some .null => .ok JadxCodeData.new
  | some (.object o) => gson.readCodeDataObject o
  | some _ => .error (.illegalArgument "Native Jadx project codeData must be a JSON object")

/-- The constructor. -/
def ofRoot (projectPath : UnixPath) (root : JsonObject) : Except Throwable NativeProjectDocument :=
  do
  let codeData ← readCodeData gson root
  pure ⟨(projectPath.toAbsolutePath cwd).normalize, root, codeData⟩

/-! ### Code data -/

/-- Native identity ignores the members that the codec does not know. -/
def sameNativeReference {α : Type} [DecidableEq α] (read : JsonObject → Except Throwable α)
    (left right : Option JsonElement) :
    Except Throwable Bool :=
  match left, right with
  | some left, some right =>
    if JsonElement.isNull (some left) then pure (JsonElement.isNull (some right))
    else if JsonElement.isNull (some right) then pure false
    else do
      let a ← Gson.readObject read left
      let b ← Gson.readObject read right
      pure (a == b)
  | none, right => pure (JsonElement.isNull right)
  | some left, none => pure (JsonElement.isNull (some left))

def commentStyle (entry : JsonObject) : Except Throwable JString :=
  match Members.get (str "style") entry with
  | none => .ok CommentStyle.LINE.name
  | some .null => .ok CommentStyle.LINE.name
  | some style => gson.getAsString style

/-- The condition of the loop over the old entries. -/
def sameEntry (comments : Bool) (old combined : JsonObject) : Except Throwable Bool := do
  let node ← sameNativeReference gson.readNodeRef (Members.get (str "nodeRef") old)
    (Members.get (str "nodeRef") combined)
  if !node then pure false
  else
    let code ← sameNativeReference gson.readCodeRef (Members.get (str "codeRef") old)
      (Members.get (str "codeRef") combined)
    if !code then pure false
    else if !comments then pure true
    else
      let a ← commentStyle gson old
      let b ← commentStyle gson combined
      pure (a == b)

/-- What is written over a member of the old entry: a reference keeps the members that the codec
does not know. -/
def preservedMember (name : JString) (old : Option JsonElement) (value : JsonElement) :
    JsonElement :=
  if name = str "nodeRef" ∨ name = str "codeRef" then
    match old, value with
    | some (.object reference), .object fields =>
        .object (Members.merge (fun _ _ field => field) reference fields)
    | _, value => value
  else value

/-- An old entry with an updated one laid over it. -/
def preserved (old combined : JsonObject) : JsonObject := Members.merge preservedMember old combined

/-- The first old entry that is the same, and the others. -/
def takeEntry (comments : Bool) (combined : JsonObject) :
    List JsonElement → Except Throwable (Option (JsonObject × List JsonElement))
  | [] => .ok none
  | .object old :: entries => do
    let same ← sameEntry gson comments old combined
    if same then pure (some (old, entries))
    else
      let taken ← takeEntry comments combined entries
      pure (taken.map fun (e, rest) => (e, .object old :: rest))
  | old :: entries => do
    let taken ← takeEntry comments combined entries
    pure (taken.map fun (e, rest) => (e, old :: rest))

/-- The loop over the updated entries; the old ones that are used are gone from the list. -/
def preserveEntries (comments : Bool) : List JsonElement → List JsonElement → Except Throwable
    (List JsonElement)
  | _, [] => .ok []
  | old, .object combined :: updated => do
    match ← takeEntry gson comments combined old with
    | some (e, rest) =>
      let entries ← preserveEntries comments rest updated
      pure (.object (preserved e combined) :: entries)
    | none =>
      let entries ← preserveEntries comments old updated
      pure (.object combined :: entries)
  | _, _ :: _ => .error Entry.notAnObject

def preserveUnknownEntryFields (comments : Bool) :
    JsonElement → JsonElement → Except Throwable JsonElement
  | .array old, .array updated => (preserveEntries gson comments old updated).map .array
  | _, updated => .ok updated

/-- One member of the code data that is written. -/
def mergedMember (merged : JsonObject) (e : JString × JsonElement) : Except Throwable JsonObject :=
  match Members.get e.1 merged with
  | some old =>
    if e.1 = str "renames" ∨ e.1 = str "comments" then do
      let entries ← preserveUnknownEntryFields gson (e.1 == str "comments") old e.2
      pure (Members.add e.1 entries merged)
    else pure (Members.add e.1 e.2 merged)
  | none => pure (Members.add e.1 e.2 merged)

/-- The members of the code data in a tree. -/
def codeDataMembers (root : JsonObject) : JsonObject :=
  match Members.get CODE_DATA_KEY root with
  | some (.object o) => o
  | _ => []

def setCodeData (d : NativeProjectDocument) (codeData : JadxCodeData) :
    Except Throwable NativeProjectDocument := do
  let merged ← codeData.toJson.foldlM (mergedMember gson) (codeDataMembers d.root)
  pure ⟨d.projectPath, Members.add CODE_DATA_KEY (.object merged) d.root, codeData⟩

def copyCodeData (source : JadxCodeData) : Except Throwable JadxCodeData :=
  gson.readCodeDataObject source.toJson

/-- A copy with other code data. -/
def withCodeData (d : NativeProjectDocument) (candidate : JadxCodeData) :
    Except Throwable NativeProjectDocument := do
  let copy ← ofRoot gson cwd d.projectPath d.root
  let codeData ← copyCodeData gson candidate
  copy.setCodeData gson codeData

def toJsonTree (d : NativeProjectDocument) : Except Throwable JsonObject := do
  let copy ← d.withCodeData gson cwd d.codeData
  pure copy.root

/-! ### Paths -/

/-- A path of the tree, against the directory of the project. -/
def resolved (d : NativeProjectDocument) (text : JString) : Except Throwable UnixPath := do
  let path ← UnixPath.of text
  if path.isAbsolute then pure path.normalize
  else match d.projectPath.getParent with
    | some base => pure (base.resolve path).normalize
    | none => .error .exception

def resolvedAll (d : NativeProjectDocument) : List JsonElement → Except Throwable (List UnixPath)
  | [] => .ok []
  | element :: elements => do
    let text ← gson.getAsString element
    let path ← d.resolved text
    let paths ← resolvedAll d elements
    pure (path :: paths)

def getInputFiles (d : NativeProjectDocument) : Except Throwable (List UnixPath) :=
  match Members.get (str "files") d.root with
  | some (.array elements) => resolvedAll gson d elements
  | _ => .error (.illegalArgument "Native Jadx project files must be a JSON array")

def getMappingsPath (d : NativeProjectDocument) : Except Throwable (Option UnixPath) :=
  match Members.get (str "mappingsPath") d.root with
  | none => .ok none
  | some .null => .ok none
  | some element => do
    let text ← gson.getAsString element
    let path ← d.resolved text
    pure (some path)

/-- A path as it is written: against the directory of the project. -/
def nativePath (project referenced : UnixPath) : Except Throwable JString :=
  match (project.toAbsolutePath cwd).normalize.getParent with
  | some base => .ok (base.relativize (referenced.toAbsolutePath cwd).normalize).toString
  | none => .error .exception

def nativePaths (project : UnixPath) : List UnixPath → Except Throwable (List JsonElement)
  | [] => .ok []
  | input :: inputs => do
    let text ← nativePath cwd project input
    let texts ← nativePaths project inputs
    pure (.string text :: texts)

/-- The document as it is at another path. -/
def rebasedTo (d : NativeProjectDocument) (target : UnixPath) :
    Except Throwable NativeProjectDocument := do
  let tree ← d.toJsonTree gson cwd
  let inputs ← d.getInputFiles gson
  let files ← nativePaths cwd target inputs
  let rebased := Members.add (str "files") (.array files) tree
  match ← d.getMappingsPath gson with
  | some mappings =>
    let text ← nativePath cwd target mappings
    ofRoot gson cwd target (Members.add (str "mappingsPath") (.string text) rebased)
  | none => ofRoot gson cwd target rebased

def withMappingsPath (d : NativeProjectDocument) (mappings : Option UnixPath) :
    Except Throwable NativeProjectDocument := do
  let tree ← d.toJsonTree gson cwd
  match mappings with
  | none => ofRoot gson cwd d.projectPath (Members.add (str "mappingsPath") .null tree)
  | some path =>
    let text ← nativePath cwd d.projectPath path
    ofRoot gson cwd d.projectPath (Members.add (str "mappingsPath") (.string text) tree)

end NativeProjectDocument

end Libjadx
