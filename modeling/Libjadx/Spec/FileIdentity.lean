import Libjadx.Spec.References
import Libjadx.Spec.UnixPath

/-!
# The identity of files

`NativeProjectRepository.identity`: the digest of the paths of a project and of what its files hold.
-/

namespace Libjadx

namespace FileIdentity

open ReferenceSnapshot (formatHex)

/-- A file of a project, and the SHA-256 digest of what it holds, or nothing where there is no file.
The root of the file system is a directory: it has no content to digest. -/
structure File where
  path : UnixPath
  digest : Option (List UInt8)
  admitted : ∃ text, UnixPath.of text = .ok path
  absolute : path.isAbsolute = true
  named : path.names ≠ []
  digest_length : ∀ d ∈ digest, d.length = 32

/-- The `sha256` of a `FileFingerprint`, or what `identity` takes in its place. -/
def fingerprintText (digest : Option (List UInt8)) : JString :=
  match digest with
  | none => str "ABSENT"
  | some d => str "sha256:" ++ formatHex d

/-- One round of the loop of `identity`: the two updates of the digest. -/
def File.update (f : File) : List UInt8 :=
  getBytes f.path.toString ++ getBytes (fingerprintText f.digest)

/-- What `identity` feeds to the digest. -/
def digestInput (files : List File) : List UInt8 := files.flatMap File.update

/-- `identity`. -/
def identity (platform : Platform) (files : List File) : JString :=
  str "sha256:" ++ formatHex (platform.sha256 (digestInput files))

/-- A directory of the path has a name that ends in a fingerprint, after something else. -/
def Imitates (path : UnixPath) : Prop :=
  ∃ name ∈ path.names.dropLast, ∃ (stem : JString) (digest : Option (List UInt8)),
    stem ≠ [] ∧ (∀ d ∈ digest, d.length = 32) ∧ name = stem ++ fingerprintText digest

end FileIdentity

end Libjadx
