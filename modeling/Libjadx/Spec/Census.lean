import Libjadx.Spec.Symbols

/-!
# The input census and its hierarchy graph

`InputCensus` holds the original declarations of all inputs, grouped by class descriptor.
`HierarchyGraph` reads its parent edges in both directions.
-/

namespace Libjadx

/-- JVM and Dalvik declaration flags. -/
structure Access where
  bits : UInt32
deriving DecidableEq

namespace Access

def PUBLIC : UInt32 := 1
def PRIVATE : UInt32 := 2
def PROTECTED : UInt32 := 4
def STATIC : UInt32 := 8
def FINAL : UInt32 := 16
def BRIDGE : UInt32 := 64
def INTERFACE : UInt32 := 512
def ABSTRACT : UInt32 := 1024
def SYNTHETIC : UInt32 := 4096

def has (a : Access) (flag : UInt32) : Bool := a.bits &&& flag != 0

/-- `Integer.bitCount(access & mask)`. -/
def count (a : Access) (mask : UInt32) : ℕ :=
  ((List.range 32).filter fun i => (a.bits &&& mask).toNat.testBit i).length

end Access

/-- A declared method: an original method reference without input identity. -/
structure MethodRecord where
  ref : SymbolRef
  access : Access
  method : ref.kind = .METHOD ∧ ref.inputIdentity = none
deriving DecidableEq

namespace MethodRecord

variable (m : MethodRecord)

/-- `ref().originalName()`, present on every method reference. -/
def name : JString := m.ref.originalName.getD []

/-- `ref().originalDescriptor()`, present on every method reference. -/
def descriptor : JString := m.ref.originalDescriptor.getD []

def owner : JString := m.ref.originalClassDescriptor

def arguments : JString := m.descriptor.take (m.descriptor.indexOf (chr ')') + 1)
def returns : JString := m.descriptor.drop (m.descriptor.indexOf (chr ')') + 1)
def signature : JString := m.name ++ m.arguments

def has (flag : UInt32) : Bool := m.access.has flag

def instance? : Bool := !m.name.startsWith (str "<") && !m.has (Access.STATIC ||| Access.PRIVATE)

end MethodRecord

/-- One definition of a class in one input. -/
structure ClassRecord where
  descriptor : JString
  superclass : Option JString
  interfaces : List JString
  access : Access
  methods : List MethodRecord
  described : ∀ d ∈ descriptor :: (superclass.toList ++ interfaces),
    (validateClassDescriptor d).isOk = true
  declared : ∀ m ∈ methods, m.owner = descriptor
  keys : (methods.map MethodRecord.ref).Nodup

namespace ClassRecord

def has (c : ClassRecord) (flag : UInt32) : Bool := c.access.has flag

/-- `parents()`: distinct and sorted. -/
def parents (c : ClassRecord) : List JString := treeSet (c.interfaces ++ c.superclass.toList)

end ClassRecord

/-- All class definitions by descriptor, in the key order of a `TreeMap`. Whoever builds a
census files each record under its own descriptor. -/
structure InputCensus where
  classesByDescriptor : List (JString × List ClassRecord)
  sorted : (classesByDescriptor.map Prod.fst).Pairwise (· < ·)
  filed : ∀ e ∈ classesByDescriptor, ∀ c ∈ e.2, c.descriptor = e.1

namespace InputCensus

/-- `classesByDescriptor().get(descriptor)`. -/
def get (census : InputCensus) (descriptor : JString) : Option (List ClassRecord) :=
  census.classesByDescriptor.lookup descriptor

/-- The key set. -/
def keys (census : InputCensus) : List JString := census.classesByDescriptor.map Prod.fst

end InputCensus

inductive EdgeTarget
  | IN_CENSUS_UNIQUE | IN_CENSUS_DUPLICATE | EXTERNAL_CLASSPATH | MISSING
deriving DecidableEq, Repr

structure HierarchyEdge where
  owner : JString
  target : JString
  classification : EdgeTarget

/-- The census with the types and the `Object` signatures of the classpath. -/
structure HierarchyGraph where
  census : InputCensus
  externalTypes : List JString
  objectSignatures : List JString

namespace HierarchyGraph

variable (g : HierarchyGraph)

/-- The parents named by any definition of `owner`. -/
def targets (owner : JString) : List JString :=
  treeSet (((g.census.get owner).getD []).flatMap ClassRecord.parents)

def classify (target : JString) : EdgeTarget :=
  match g.census.get target with
  | none => if g.externalTypes.contains target then .EXTERNAL_CLASSPATH else .MISSING
  | some records => if records.length == 1 then .IN_CENSUS_UNIQUE else .IN_CENSUS_DUPLICATE

def parents (owner : JString) : List HierarchyEdge :=
  (g.targets owner).map fun target => ⟨owner, target, g.classify target⟩

/-- The owners with an edge to `target`, in key order. -/
def children (target : JString) : List JString :=
  g.census.keys.filter fun owner => (g.targets owner).contains target

/-- `Object` ends a branch only for a signature its pinned declaration does not have. -/
def objectTerminal (edge : HierarchyEdge) (signature : JString) : Bool :=
  edge.target == str "Ljava/lang/Object;" && edge.classification == .EXTERNAL_CLASSPATH &&
    !g.objectSignatures.isEmpty && !g.objectSignatures.contains signature

end HierarchyGraph

end Libjadx
