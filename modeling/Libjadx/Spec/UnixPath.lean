import Libjadx.Spec.Bytes

/-!
# Paths

`java.nio.file.Path` as it is on a Unix: names between slashes. A path without names is the root, or
the empty path. Nothing here looks at the disk: `normalize` drops `name/..` whatever `name` is.
-/

namespace Libjadx

structure UnixPath where
  absolute : Bool
  names : List JString
deriving DecidableEq

namespace UnixPath

def DOT : JString := str "."

def DOT_DOT : JString := str ".."

/-- `Path.of(text)`; slashes in a row are one. -/
def of (text : JString) : Except Throwable UnixPath :=
  if 0 ∈ text then .error (.illegalArgument "Nul character not allowed")
  else if Paired text = false then
    .error (.illegalArgument "Malformed input or input contains unmappable characters")
  else .ok ⟨text.head? == some (chr '/'), (text.splitOn (chr '/')).filter fun name => !name.isEmpty⟩

def toString (p : UnixPath) : JString :=
  (if p.absolute then [chr '/'] else []) ++ (p.names.intersperse [chr '/']).flatten

def isAbsolute (p : UnixPath) : Bool := p.absolute

/-- One name of `normalize`, over the names that stay. -/
def pushName (absolute : Bool) (names : List JString) (name : JString) : List JString :=
  if name = DOT then names
  else if name = DOT_DOT then
    match names.getLast? with
    | some last => if last = DOT_DOT then names ++ [name] else names.dropLast
    | none => if absolute then [] else [name]
  else names ++ [name]

def normalize (p : UnixPath) : UnixPath := ⟨p.absolute, p.names.foldl (pushName p.absolute) []⟩

/-- The path against the working directory. -/
def toAbsolutePath (cwd : List JString) (p : UnixPath) : UnixPath :=
  if p.absolute then p else ⟨true, cwd ++ p.names⟩

def getParent (p : UnixPath) : Option UnixPath :=
  match p.names with
  | [] => none
  | [_] => if p.absolute then some ⟨true, []⟩ else none
  | _ :: _ :: _ => some ⟨p.absolute, p.names.dropLast⟩

def resolve (base other : UnixPath) : UnixPath :=
  if other.absolute then other else ⟨base.absolute, base.names ++ other.names⟩

/-- From one list of names to the other: up to where they part, and down again. -/
def relativizeNames : List JString → List JString → List JString
  | b :: base, n :: names =>
    if b = n then relativizeNames base names else (b :: base).map (fun _ => DOT_DOT) ++ n :: names
  | [], names => names
  | b :: base, [] => (b :: base).map fun _ => DOT_DOT

/-- `base.relativize(path)` of two absolute normal paths. -/
def relativize (base path : UnixPath) : UnixPath := ⟨false, relativizeNames base.names path.names⟩

end UnixPath

end Libjadx
