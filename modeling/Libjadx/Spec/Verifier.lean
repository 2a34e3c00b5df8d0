import Libjadx.Lib.Metered
import Libjadx.Lib.UnionFind
import Libjadx.Spec.Census

/-!
# The independent hierarchy verifier

`IndependentHierarchyVerifier.verify` closes the class component of a seed method, checks
it, and joins the declarations of one override signature into families. All of it runs
under a work budget: every traversal step counts.
-/

namespace Libjadx

inductive VerificationStatus
  | COMPLETE | NOT_FOUND | AMBIGUOUS_INPUT | MISSING_SUPERTYPE | EXTERNAL_SUPERTYPE
  | UNSUPPORTED_METHOD | UNSUPPORTED_INPUT | RESOURCE_LIMIT | INVALID_HIERARCHY |
      INPUT_CHANGED | FAILED
deriving DecidableEq, Repr

structure VerificationBudget where
  familyMembers : ℕ
  visitedNodes : ℕ
  work : ℕ
  family_ok : 1 ≤ familyMembers ∧ familyMembers ≤ 64
  nodes_ok : 1 ≤ visitedNodes
  work_ok : 1 ≤ work

/-- Why a verification stopped; also the diagnostic it reports. -/
structure Incomplete where
  status : VerificationStatus
  descriptor : Option JString
  reason : String
  incomplete : status ≠ .COMPLETE
deriving DecidableEq

structure Verification where
  status : VerificationStatus
  seed : SymbolRef
  members : List SymbolRef
  diagnostics : List Incomplete
  work : ℕ
deriving DecidableEq

/-- The graph, and the order in which a `HashMap` hands out the keys put into it. -/
structure IndependentHierarchyVerifier where
  graph : HierarchyGraph
  keySetOrder : List SymbolRef → List SymbolRef
  keySetOrder_perm : ∀ l, (keySetOrder l).Perm l

namespace IndependentHierarchyVerifier

open Metered

abbrev Walk := Metered Incomplete

def limit : Incomplete := ⟨.RESOURCE_LIMIT, none, "Traversal work limit", by decide⟩

def walkStep : Walk Unit := step limit

def fail {α : Type} (status : VerificationStatus) (descriptor : JString) (reason : String)
    (incomplete : status ≠ .COMPLETE := by decide) : Walk α :=
  throw ⟨status, some descriptor, reason, incomplete⟩

variable (v : IndependentHierarchyVerifier)

/-! ## The component -/

def unique (descriptor : JString) : Walk ClassRecord :=
  match v.graph.census.get descriptor with
  | none => fail .NOT_FOUND descriptor "Original class absent"
  | some [record] => pure record
  | some _ => fail .AMBIGUOUS_INPUT descriptor "Multiple raw definitions"

/-- The work list and the names of the component so far. -/
structure Closing where
  queue : List JString
  component : List JString

/-- The parent loop's body: the queue after one edge. -/
def enqueueParent (signature : JString) (queue : List JString) (edge : HierarchyEdge) :
    Walk (List JString) := do
  walkStep
  if v.graph.objectTerminal edge signature then pure queue
  else match edge.classification with
    | .IN_CENSUS_UNIQUE | .IN_CENSUS_DUPLICATE => pure (queue ++ [edge.target])
    | .EXTERNAL_CLASSPATH => fail .EXTERNAL_SUPERTYPE edge.target "External hierarchy branch"
    | .MISSING => fail .MISSING_SUPERTYPE edge.target "Missing hierarchy branch"

def enqueueChild (queue : List JString) (child : JString) : Walk (List JString) := do
  walkStep
  pure (queue ++ [child])

def closeRound (budget : VerificationBudget) (signature : JString) (s : Closing) : Walk Closing :=
  match s.queue with
  | [] => pure s
  | name :: queue =>
    if name ∈ s.component then pure ⟨queue, s.component⟩
    else if budget.visitedNodes ≤ s.component.length then fail .RESOURCE_LIMIT name "Visited node limit"
    else do
      let _ ← v.unique name
      let queue ← fold (v.enqueueParent signature) queue (v.graph.parents name)
      let queue ← fold enqueueChild queue (v.graph.children name)
      pure ⟨queue, s.component ++ [name]⟩

/-- The names of the component, a `TreeMap`'s keys: in key order. -/
def collectComponent (budget : VerificationBudget) (seedClass signature : JString) :
    Walk (List JString) := do
  let s ← while_ (fun s => !s.queue.isEmpty) limit (v.closeRound budget signature) ⟨[seedClass], []⟩
  pure (v.graph.census.keys.filter (· ∈ s.component))

/-- `component.get(name)`. -/
def classOf (component : List JString) (name : JString) : Option ClassRecord :=
  if name ∈ component then (v.graph.census.get name).bind List.head? else none

/-- `component.values()`. -/
def classes (component : List JString) : List ClassRecord :=
  component.filterMap (v.classOf component)

/-- The work list and the ancestors seen so far. -/
structure Climbing where
  queue : List JString
  seen : List JString

def climbEdge (component : List JString) (name : JString) (s : Climbing) (edge : HierarchyEdge) :
    Walk Climbing := do
  walkStep
  if edge.target ∉ component then pure s
  else if edge.target = name then fail .INVALID_HIERARCHY name "Inheritance cycle"
  else if edge.target ∈ s.seen then pure s
  else pure ⟨s.queue ++ [edge.target], s.seen ++ [edge.target]⟩

def climbRound (component : List JString) (name : JString) (s : Climbing) : Walk Climbing :=
  match s.queue with
  | [] => pure s
  | current :: queue => fold (climbEdge component name) ⟨queue, s.seen⟩ (v.graph.parents current)

def collectAncestors (component : List JString) (name : JString) : Walk (List JString) := do
  let s ← while_ (fun s => !s.queue.isEmpty) limit (v.climbRound component name) ⟨[name], []⟩
  pure s.seen

/-- The ancestors of every class of the component. -/
abbrev Ancestors := List (JString × List JString)

/-- `ancestors.get(name)`. -/
def Ancestors.of (ancestors : Ancestors) (name : JString) : List JString :=
  (ancestors.lookup name).getD []

def collectAllAncestors (component : List JString) : Walk Ancestors :=
  fold (fun ancestors name => do
    let seen ← v.collectAncestors component name
    pure (ancestors ++ [(name, seen)])) [] component

/-! ## Checks on edges -/

/-- `descriptor.substring(0, descriptor.lastIndexOf('/') + 1)`. -/
def pkg (descriptor : JString) : JString := descriptor.uptoLast (chr '/')

def validateParent (component : List JString) (cls : ClassRecord) (_ : Unit) (parent : JString) :
    Walk Unit := do
  walkStep
  match v.classOf component parent with
  | none => pure ()
  | some target =>
    if (cls.superclass = some parent ∧ target.has Access.INTERFACE) ∨
        (parent ∈ cls.interfaces ∧ ¬ target.has Access.INTERFACE) then
      fail .INVALID_HIERARCHY cls.descriptor "Class/interface edge kind mismatch"
    else if ¬ target.has Access.PUBLIC ∧ pkg parent ≠ pkg cls.descriptor then
      fail .INVALID_HIERARCHY cls.descriptor "Inaccessible superclass/interface"
    else pure ()

def validateClass (component : List JString) (_ : Unit) (cls : ClassRecord) : Walk Unit :=
  if cls.has Access.INTERFACE ∧ cls.superclass.any (· ≠ str "Ljava/lang/Object;") then
    fail .INVALID_HIERARCHY cls.descriptor "Interface has non-Object superclass"
  else fold (v.validateParent component cls) () cls.parents

def validateEdges (component : List JString) : Walk Unit :=
  fold (v.validateClass component) () (v.classes component)

/-! ## The declarations of one signature -/

def visibleIn (method : MethodRecord) (descendant : JString) : Bool :=
  method.has (Access.PUBLIC ||| Access.PROTECTED) || pkg method.owner == pkg descendant

/-- A static or private declaration hides no inherited instance method. -/
def checkHidden (cls : ClassRecord) (m : MethodRecord) (_ : Unit) (inherited : MethodRecord) :
    Walk Unit := do
  walkStep
  if inherited.instance? ∧ inherited.signature = m.signature ∧
      visibleIn inherited cls.descriptor then
    fail .INVALID_HIERARCHY cls.descriptor "Static/private declaration hides inherited instance method"
  else pure ()

def checkHiding (component : List JString) (ancestors : Ancestors) (cls : ClassRecord)
    (m : MethodRecord) :
    Walk Unit :=
  fold (fun _ ancestor => fold (checkHidden cls m) ()
    (((v.classOf component ancestor).map ClassRecord.methods).getD []))
    () (treeSet (ancestors.of cls.descriptor))

/-- One declared method: the instance declarations of the seed's signature so far. -/
def scanMethod (component : List JString) (ancestors : Ancestors) (seed : MethodRecord)
    (cls : ClassRecord)
    (methods : List MethodRecord) (m : MethodRecord) : Walk (List MethodRecord) := do
  walkStep
  if m.name = seed.name ∧ (m.has (Access.BRIDGE ||| Access.SYNTHETIC) ∨
      cls.has Access.SYNTHETIC) then
    fail .UNSUPPORTED_METHOD cls.descriptor
      "Bridge/synthetic signature component requires persistence proof"
  else if m.signature ≠ seed.signature then pure methods
  else if 1 < m.access.count (Access.PUBLIC ||| Access.PRIVATE ||| Access.PROTECTED) ∨
      (m.has Access.ABSTRACT ∧ m.has (Access.STATIC ||| Access.PRIVATE ||| Access.FINAL)) then
    fail .INVALID_HIERARCHY cls.descriptor "Inconsistent method flags"
  else if m.instance? then pure (methods ++ [m])
  else do
    v.checkHiding component ancestors cls m
    pure methods

/-- The matching declarations of each class; `groups` starts with every one of them alone. -/
abbrev Matching := List (JString × List MethodRecord)

/-- `matching.get(name)`. -/
def Matching.of (matching : Matching) (name : JString) : List MethodRecord :=
  (matching.lookup name).getD []

def scanClass (component : List JString) (ancestors : Ancestors) (seed : MethodRecord)
    (matching : Matching) (cls : ClassRecord) : Walk Matching := do
  let methods ← fold (v.scanMethod component ancestors seed cls) [] cls.methods
  if 1 < methods.length then
    fail .UNSUPPORTED_METHOD cls.descriptor "Multiple return descriptors for one override signature"
  else if cls.has Access.FINAL ∧ v.graph.children cls.descriptor ≠ [] then
    fail .INVALID_HIERARCHY cls.descriptor "Final class has input descendants"
  else pure (matching ++ [(cls.descriptor, methods)])

def scanClasses (component : List JString) (ancestors : Ancestors) (seed : MethodRecord) :
    Walk Matching :=
  fold (v.scanClass component ancestors seed) [] (v.classes component)

/-! ## Joining at every inheritance context -/

/-- `groups.get`, a map from declarations to their parents in the forest. -/
abbrev Groups := SymbolRef → SymbolRef

def find (groups : Groups) (ref : SymbolRef) : Walk SymbolRef :=
  while_ (fun r => groups r ≠ r) limit (fun r => pure (groups r)) ref

def union (groups : Groups) (a b : SymbolRef) : Walk Groups := do
  let a ← find groups a
  let b ← find groups b
  if a.toText.le b.toText then pure (Forest.link groups a b) else pure (Forest.link groups b a)

def inherit (cls : ClassRecord) (visible : List MethodRecord) (inherited : MethodRecord) :
    Walk (List MethodRecord) := do
  walkStep
  if visibleIn inherited cls.descriptor then pure (visible ++ [inherited]) else pure visible

/-- The declarations visible in a class: its own, then those of its ancestors in key order. -/
def visibleMethods (ancestors : Ancestors) (matching : Matching) (cls : ClassRecord) :
    Walk (List MethodRecord) :=
  fold (fun visible parent => fold (inherit cls) visible (matching.of parent))
    (matching.of cls.descriptor) (treeSet (ancestors.of cls.descriptor))

/-- The pairs `(l[i], l[j])` with `i < j`, in the order of the two loops. -/
def pairs {α : Type} : List α → List (α × α)
  | [] => []
  | a :: l => l.map (fun b => (a, b)) ++ pairs l

/-- Two visible declarations at one inheritance context. -/
def joinPair (component : List JString) (ancestors : Ancestors) (cls : ClassRecord)
    (groups : Groups)
    (p : MethodRecord × MethodRecord) : Walk Groups :=
  let (a, b) := p
  let aParent := a.owner ∈ ancestors.of b.owner
  let bParent := b.owner ∈ ancestors.of a.owner
  let interfaces := (v.classOf component a.owner).any (·.has Access.INTERFACE) ∨
    (v.classOf component b.owner).any (·.has Access.INTERFACE)
  let parent := if aParent then a else b
  let child := if aParent then b else a
  let joined :=
    if a.returns ≠ b.returns then
      fail .UNSUPPORTED_METHOD cls.descriptor
        "Covariant/incompatible return family requires bridge and persistence proof"
    else union groups a.ref b.ref
  do
    walkStep
    if aParent ∨ bParent then
      if ¬ visibleIn parent child.owner then pure groups
      else if parent.has Access.FINAL then
        fail .INVALID_HIERARCHY parent.owner "Override of final declaration"
      else if (parent.has Access.PUBLIC ∧ ¬ child.has Access.PUBLIC) ∨
          (parent.has Access.PROTECTED ∧ ¬ child.has (Access.PUBLIC ||| Access.PROTECTED)) then
        fail .INVALID_HIERARCHY child.owner "Reduced override visibility"
      else joined
    else if ¬ interfaces then pure groups
    else if ¬ a.has Access.PUBLIC ∨ ¬ b.has Access.PUBLIC then
      fail .UNSUPPORTED_METHOD cls.descriptor "Nonpublic inherited interface implementation"
    else joined

def joinClass (component : List JString) (ancestors : Ancestors) (matching : Matching)
    (groups : Groups)
    (cls : ClassRecord) : Walk Groups := do
  let visible ← visibleMethods ancestors matching cls
  fold (v.joinPair component ancestors cls) groups (pairs visible)

def joinClasses (component : List JString) (ancestors : Ancestors) (matching : Matching) :
    Walk Groups :=
  fold (v.joinClass component ancestors matching) id (v.classes component)

/-! ## The family of the seed -/

def addMember (budget : VerificationBudget) (ownerName : JString) (groups : Groups)
    (root : SymbolRef)
    (family : List SymbolRef) (ref : SymbolRef) : Walk (List SymbolRef) := do
  walkStep
  let r ← find groups ref
  if r ≠ root then pure family
  else if budget.familyMembers ≤ family.length then fail .RESOURCE_LIMIT ownerName "Family member limit"
  else pure (family ++ [ref])

/-- From the component to the groups: nothing here depends on the seed but its name and signature.
-/
def buildGroups (component : List JString) (seed : MethodRecord) : Walk (List SymbolRef × Groups) :=
  do
  let ancestors ← v.collectAllAncestors component
  v.validateEdges component
  let matching ← v.scanClasses component ancestors seed
  let groups ← v.joinClasses component ancestors matching
  pure (v.keySetOrder (matching.flatMap fun e => e.2.map MethodRecord.ref), groups)

/-- `Walk.verify`, once the seed's declaration is at hand. -/
def walkFrom (budget : VerificationBudget) (owner : ClassRecord) (method : MethodRecord) :
    Walk (List SymbolRef) := do
  let component ← v.collectComponent budget method.owner method.signature
  let (keys, groups) ← v.buildGroups component method
  let root ← find groups method.ref
  let family ← fold (addMember budget owner.descriptor groups root) [] keys
  pure (family.insertionSort fun a b => a.toText.le b.toText)

def walk (seed : SymbolRef) (budget : VerificationBudget) : Walk (List SymbolRef) :=
  if seed.kind ≠ .METHOD ∨ seed.inputIdentity ≠ none then
    fail .UNSUPPORTED_METHOD seed.originalClassDescriptor
      "Original method key without input identity required"
  else do
    let owner ← v.unique seed.originalClassDescriptor
    match owner.methods.find? (fun m => m.ref = seed) with
    | none => fail .NOT_FOUND owner.descriptor "Seed declaration absent"
    | some method =>
      if ¬ method.instance? ∨ method.has (Access.BRIDGE ||| Access.SYNTHETIC) ∨
          owner.has Access.SYNTHETIC then
        fail .UNSUPPORTED_METHOD owner.descriptor "Special/static/private/bridge/synthetic seed"
      else v.walkFrom budget owner method

def verify (seed : SymbolRef) (budget : VerificationBudget) : Verification :=
  match (v.walk seed budget).run budget.work 0 with
  | (.ok family, work) => ⟨.COMPLETE, seed, family, [], work⟩
  | (.error e, work) => ⟨e.status, seed, [], [e], work⟩

end IndependentHierarchyVerifier

end Libjadx
