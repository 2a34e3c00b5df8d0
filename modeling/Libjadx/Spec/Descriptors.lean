import Libjadx.Spec.Census

/-!
# Descriptors

The grammar that `SymbolRef` checks its descriptors against, and the places that cut a method
descriptor in two.
-/

namespace Libjadx

/-! ## The grammar -/

/-- A character of a segment. -/
def Permitted (c : JChar) : Prop := c ≠ chr '/' ∧ forbiddenInBody c = false

/-- A part of a class name between two slashes. -/
def Segment (s : JString) : Prop := s ≠ [] ∧ ∀ c ∈ s, Permitted c

/-- A class name: segments with a slash between them. -/
inductive ObjectBody : JString → Prop
  | single {s : JString} (h : Segment s) : ObjectBody s
  | slash {s body : JString} (h : Segment s) (hbody : ObjectBody body) :
      ObjectBody (s ++ chr '/' :: body)

/-- `L` and a class name and `;`. -/
def ClassType (t : JString) : Prop := ∃ body, ObjectBody body ∧ t = chr 'L' :: (body ++ [chr ';'])

/-- A primitive or an object type. -/
inductive ElementType : JString → Prop
  | primitive {c : JChar} (h : c ∈ str "BCDFIJSZ") : ElementType [c]
  | object {t : JString} (h : ClassType t) : ElementType t

/-- An array of at most 255 dimensions, or none. -/
def FieldType (t : JString) : Prop :=
  ∃ dimensions element, dimensions ≤ 255 ∧ ElementType element ∧
    t = List.replicate dimensions (chr '[') ++ element

/-- What a method returns. -/
def ReturnType (t : JString) : Prop := FieldType t ∨ t = [chr 'V']

/-- The parse of a method descriptor: its parameter types in order, and its return type. -/
structure MethodParse (descriptor : JString) (parameters : List JString) (returns : JString) :
    Prop where
  types : ∀ p ∈ parameters, FieldType p
  result : ReturnType returns
  text : descriptor = chr '(' :: (parameters.flatten ++ chr ')' :: returns)

/-- A parameter list as it is written. -/
def parameterText (parameters : List JString) : JString :=
  chr '(' :: (parameters.flatten ++ [chr ')'])

/-! ## The cuts -/

namespace SymbolRef

/-- `ref.originalDescriptor()` where there is one. -/
def descriptor (r : SymbolRef) : JString := r.originalDescriptor.getD []

end SymbolRef

/-- `descriptor.substring(0, descriptor.indexOf(')') + 1)`. -/
def beforeParenthesis (descriptor : JString) : JString :=
  descriptor.take (descriptor.indexOf (chr ')') + 1)

/-- The `arguments` of `RawMethodCollisionInventory.Method`. -/
def RawMethodCollisionInventory.arguments (ref : SymbolRef) : JString :=
  beforeParenthesis ref.descriptor

/-- The `argumentDescriptor` of `JadxNativeEditAdapter.Target`. -/
def JadxNativeEditAdapter.argumentDescriptor (ref : SymbolRef) : JString :=
  if ref.kind = .METHOD then beforeParenthesis ref.descriptor else []

def JadxMappingImportAdapter.arguments (ref : SymbolRef) : JString :=
  beforeParenthesis ref.descriptor

end Libjadx
