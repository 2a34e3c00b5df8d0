import Libjadx.Spec.Verifier

/-!
# Override families, abstractly

What a family should be, stated on the hierarchy graph alone: the class component of a
seed, proper ancestors in it, which declarations are related by overriding or by a common
implementation, and the closure of that relation.
-/

namespace Libjadx

namespace HierarchyGraph

variable (g : HierarchyGraph)

/-- A parent edge between two classes of the census. -/
def ParentEdge (x y : JString) : Prop := y ∈ g.targets x ∧ y ∈ g.census.keys

/-- Connected by a parent edge, in either direction. -/
def Linked (x y : JString) : Prop := g.ParentEdge x y ∨ g.ParentEdge y x

/-- The class component of `c`. -/
def InComponent (c x : JString) : Prop := Relation.ReflTransGen g.Linked c x

/-- `y` is a proper ancestor of `x`. -/
def Ancestor (x y : JString) : Prop := Relation.TransGen g.ParentEdge x y

/-- The class has exactly one definition, `record`. -/
def Defined (x : JString) (record : ClassRecord) : Prop := g.census.get x = some [record]

/-- Every parent edge of `x` ends in the census, or at a proven `Object` terminal. -/
def EdgesClosed (signature x : JString) : Prop :=
  ∀ e ∈ g.parents x, g.objectTerminal e signature ∨ e.target ∈ g.census.keys

def IsInterface (x : JString) : Prop := ∃ record, g.Defined x record ∧ record.has Access.INTERFACE

/-- `m` is declared in the component of the class `c`. -/
def Declares (c : JString) (m : MethodRecord) : Prop :=
  ∃ x record, g.InComponent c x ∧ g.Defined x record ∧ m ∈ record.methods

/-- `m` is accessible in a class that is its owner or inherits from it. -/
def AccessibleFrom (m : MethodRecord) (x : JString) : Prop :=
  (m.owner = x ∨ g.Ancestor x m.owner) ∧ IndependentHierarchyVerifier.visibleIn m x

/-- The declarations `a` and `b` must keep one name: one overrides the other, or some class
inherits both and at least one of them from an interface. -/
def Related (c : JString) (a b : MethodRecord) : Prop :=
  (g.Ancestor b.owner a.owner ∧ IndependentHierarchyVerifier.visibleIn a b.owner) ∨
  (g.Ancestor a.owner b.owner ∧ IndependentHierarchyVerifier.visibleIn b a.owner) ∨
  (¬ g.Ancestor b.owner a.owner ∧ ¬ g.Ancestor a.owner b.owner ∧
    (g.IsInterface a.owner ∨ g.IsInterface b.owner) ∧
    ∃ x, g.InComponent c x ∧ g.AccessibleFrom a x ∧ g.AccessibleFrom b x)

/-- Related declarations among those that satisfy `D`, as a relation between references. -/
def RelatedRefs (c : JString) (D : MethodRecord → Prop) (r s : SymbolRef) : Prop :=
  ∃ a b, a.ref = r ∧ b.ref = s ∧ D a ∧ D b ∧ g.Related c a b

/-- The family of `seed` among the declarations that satisfy `D`. -/
def Family (seed : MethodRecord) (D : MethodRecord → Prop) (r : SymbolRef) : Prop :=
  (∃ m, D m ∧ m.ref = r) ∧ Relation.EqvGen (g.RelatedRefs seed.owner D) seed.ref r

/-- An instance declaration of the component with the seed's name and parameter list. -/
def SameMethod (seed m : MethodRecord) : Prop :=
  g.Declares seed.owner m ∧ m.instance? ∧ m.name = seed.name ∧
    parameters m.descriptor = parameters seed.descriptor

/-- An instance declaration of the component with the seed's `signature()` text. -/
def SameSignature (seed m : MethodRecord) : Prop :=
  g.Declares seed.owner m ∧ m.instance? ∧ m.signature = seed.signature

/-- `members` is the family of `seed`, in a component that is well defined and closed. -/
structure SoundFamily (seed : MethodRecord) (members : List SymbolRef) : Prop where
  family : ∀ r, r ∈ members ↔ g.Family seed (g.SameMethod seed) r
  once : members.Nodup
  descriptor : ∀ r ∈ members, r.originalDescriptor = seed.ref.originalDescriptor
  defined : ∀ x, g.InComponent seed.owner x → ∃ record, g.Defined x record
  closed : ∀ x, g.InComponent seed.owner x → ∀ e ∈ g.parents x,
    g.objectTerminal e seed.signature ∨ g.InComponent seed.owner e.target

/-- The declarations that share the seed's `signature()` text and are connected to it are
called like the seed. -/
def NamesAgree (seed : MethodRecord) : Prop :=
  ∀ m, g.SameSignature seed m → g.Family seed (g.SameSignature seed) m.ref → m.name = seed.name

/-- No declaration called `name` in the component of `c` is a bridge or synthetic. -/
def UnbridgedIn (c name : JString) : Prop :=
  ∀ x record, g.InComponent c x → g.Defined x record → ∀ m ∈ record.methods, m.name = name →
    ¬ (m.has (Access.BRIDGE ||| Access.SYNTHETIC) ∨ record.has Access.SYNTHETIC)

/-- No declaration called like a member of the family is a bridge or synthetic. -/
def MembersUnbridged (seed : MethodRecord) : Prop :=
  ∀ m, g.SameSignature seed m → g.Family seed (g.SameSignature seed) m.ref →
    g.UnbridgedIn seed.owner m.name

end HierarchyGraph

namespace IndependentHierarchyVerifier

/-- `verify` answers COMPLETE with these members. -/
def Verifies (v : IndependentHierarchyVerifier) (seed : SymbolRef) (budget : VerificationBudget)
    (members : List SymbolRef) : Prop :=
  (v.verify seed budget).status = .COMPLETE ∧ (v.verify seed budget).members = members

end IndependentHierarchyVerifier

/-- At least as much room. -/
def VerificationBudget.Le (a b : VerificationBudget) : Prop :=
  a.familyMembers ≤ b.familyMembers ∧ a.visitedNodes ≤ b.visitedNodes ∧ a.work ≤ b.work

end Libjadx
