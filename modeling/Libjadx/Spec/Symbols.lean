import Libjadx.Spec.Text

/-!
# Original symbol identities

`SymbolRef` is the original binary identity of a class, method or field. Its constructor
checks the descriptors; here a value carries the proof that the checks passed.
-/

namespace Libjadx

/-- `Character.isWhitespace`. -/
def isWhitespace (c : JChar) : Bool :=
  (9 ≤ c && c ≤ 13) || (28 ≤ c && c ≤ 32) || c == 0x1680 || (0x2000 ≤ c && c ≤ 0x2006) ||
    (0x2008 ≤ c && c ≤ 0x200A) || c == 0x2028 || c == 0x2029 || c == 0x205F || c == 0x3000

/-- `Character.isISOControl`. -/
def isISOControl (c : JChar) : Bool := c ≤ 0x1F || (0x7F ≤ c && c ≤ 0x9F)

inductive SymbolKind
  | CLASS | METHOD | FIELD
deriving DecidableEq, Repr

/-! ## Descriptor checks -/

/-- The characters an object descriptor's body may not hold. -/
def forbiddenInBody (c : JChar) : Bool :=
  c == chr '.' || c == chr ';' || c == chr '[' || c == chr '<' || c == chr '>' || c == chr '\\' ||
    isWhitespace c || isISOControl c

def validateObjectBody (value : JString) (start stop : ℕ) : Except String Unit :=
  if start == stop || value[start]? == some (chr '/') || value[stop - 1]? == some (chr '/') then
    .error "Invalid object descriptor"
  else (List.range' start (stop - start)).forM fun i =>
    if value[i]? == some (chr '/') && value[i - 1]? == some (chr '/') then .error "Empty package segment"
    else if value[i]?.any forbiddenInBody then .error "Invalid object descriptor character"
    else .ok ()

def validateClassDescriptor (value : JString) : Except String Unit :=
  if value.length < 3 || 1024 < value.length || value[0]? != some (chr 'L') ||
      value[value.length - 1]? != some (chr ';') then
    .error "Invalid originalClassDescriptor"
  else validateObjectBody value 1 (value.length - 1)

/-- The index after the type that starts at `at`. -/
def typeEnd (value : JString) (pos : ℕ) (allowVoid : Bool) : Except String ℕ := do
  let dimensions := ((value.drop pos).takeWhile (· == chr '[')).length
  if 255 < dimensions then throw "Too many array dimensions"
  let pos := pos + dimensions
  match value[pos]? with
  | none => throw "Incomplete type descriptor"
  | some tag =>
    if (str "BCDFIJSZ").contains tag then return pos + 1
    if tag == chr 'V' && allowVoid && dimensions == 0 then return pos + 1
    if tag == chr 'L' then
      let stop := pos + 1 + (value.drop (pos + 1)).idxOf (chr ';')
      if stop == value.length then throw "Unterminated object descriptor"
      validateObjectBody value (pos + 1) stop
      return stop + 1
    throw "Invalid type descriptor"

def validateFieldDescriptor (value : JString) : Except String Unit := do
  let stop ← typeEnd value 0 false
  if stop != value.length then throw "Invalid field descriptor"

/-- `while (at < length && value[at] != ')') at = typeEnd(value, at, false)`. Every round
advances, so as many rounds as the text is long are enough. -/
def argumentsEnd (value : JString) : ℕ → ℕ → Except String ℕ
  | 0, pos => .ok pos
  | n + 1, pos =>
    if pos < value.length && value[pos]? != some (chr ')') then do
      argumentsEnd value n (← typeEnd value pos false)
    else .ok pos

def validateMethodDescriptor (value : JString) : Except String Unit := do
  if value[0]? != some (chr '(') then throw "Invalid method descriptor"
  let pos ← argumentsEnd value value.length 1
  if value[pos]? != some (chr ')') then throw "Invalid method descriptor"
  if (← typeEnd value (pos + 1) true) != value.length then throw "Invalid method descriptor"

/-- The parenthesised parameter list of a method descriptor, as the parse delimits it. -/
def parameters (value : JString) : JString :=
  match argumentsEnd value value.length 1 with
  | .ok pos => value.take (pos + 1)
  | .error _ => value

def forbiddenInName (c : JChar) : Bool :=
  c == chr '.' || c == chr ';' || c == chr '[' || c == chr '/' || c == chr '<' || c == chr '>' ||
    isWhitespace c || isISOControl c

def validateMemberName (name : JString) (kind : SymbolKind) : Except String Unit :=
  if name.isEmpty || 512 < name.length then .error "Invalid originalName"
  else if name == str "<init>" || name == str "<clinit>" then
    if kind != .METHOD then .error "Special name requires METHOD" else .ok ()
  else if name.any forbiddenInName then .error "Invalid originalName"
  else .ok ()

/-! ## Symbol references -/

/-- The fields of a `SymbolRef`. -/
structure SymbolFields where
  kind : SymbolKind
  originalClassDescriptor : JString
  inputIdentity : Option JString
  originalName : Option JString
  originalDescriptor : Option JString
deriving DecidableEq

/-- The checks of the constructor. -/
def SymbolFields.validate (f : SymbolFields) : Except String Unit := do
  validateClassDescriptor f.originalClassDescriptor
  if f.inputIdentity.any fun s => s.all isWhitespace || 256 < s.length || s.any isWhitespace then
    throw "Invalid inputIdentity"
  match f.kind with
  | .CLASS =>
    if f.originalName.isSome || f.originalDescriptor.isSome then throw "CLASS must omit member fields"
  | kind =>
    match f.originalName with
    | none => throw "Invalid originalName"
    | some name =>
      validateMemberName name kind
      match f.originalDescriptor with
      | none => throw "Invalid originalDescriptor"
      | some descriptor =>
        if 2048 < descriptor.length then throw "Invalid originalDescriptor"
        if kind == .FIELD then validateFieldDescriptor descriptor
        else
          validateMethodDescriptor descriptor
          if name == str "<init>" && !JString.endsWith descriptor (str ")V") then
            throw "Constructor must return V"
          if name == str "<clinit>" && descriptor != str "()V" then
            throw "Class initializer must be ()V"

/-- Original binary identity. -/
def SymbolRef : Type := { f : SymbolFields // f.validate.isOk = true }

instance : DecidableEq SymbolRef := inferInstanceAs (DecidableEq (Subtype _))

namespace SymbolRef

variable (r : SymbolRef)

def kind : SymbolKind := r.1.kind
def originalClassDescriptor : JString := r.1.originalClassDescriptor
def inputIdentity : Option JString := r.1.inputIdentity
def originalName : Option JString := r.1.originalName
def originalDescriptor : Option JString := r.1.originalDescriptor

theorem ext {r s : SymbolRef} (hk : r.kind = s.kind)
    (hc : r.originalClassDescriptor = s.originalClassDescriptor)
    (hi : r.inputIdentity = s.inputIdentity) (hn : r.originalName = s.originalName)
    (hd : r.originalDescriptor = s.originalDescriptor) : r = s := by
  obtain ⟨⟨k, c, i, n, d⟩, _⟩ := r
  obtain ⟨⟨k', c', i', n', d'⟩, _⟩ := s
  simp only [kind, originalClassDescriptor, inputIdentity, originalName, originalDescriptor] at hk hc hi hn hd
  subst hk; subst hc; subst hi; subst hn; subst hd
  rfl

/-- `toString()` of the record. -/
def toText : JString :=
  str "SymbolRef[kind=" ++ (match r.kind with
    | .CLASS => str "CLASS" | .METHOD => str "METHOD" | .FIELD => str "FIELD") ++
  str ", originalClassDescriptor=" ++ r.originalClassDescriptor ++
  str ", inputIdentity=" ++ valueOf r.inputIdentity ++ str ", originalName=" ++
    valueOf r.originalName ++
  str ", originalDescriptor=" ++ valueOf r.originalDescriptor ++ str "]"

end SymbolRef

end Libjadx
