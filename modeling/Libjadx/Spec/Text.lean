import Mathlib.Algebra.Ring.Nat
import Mathlib.Data.List.Dedup
import Mathlib.Data.List.Sort

/-!
# Java text

A Java `String` is a sequence of UTF-16 code units, surrogates included or not.
`compareTo` is the lexicographic order of the units, a proper prefix first.
-/

namespace Libjadx

/-- A Java `char`. -/
abbrev JChar := UInt16

/-- A Java `String`. -/
abbrev JString := List JChar

/-- The UTF-16 code units of a character. -/
def utf16 (c : Char) : JString :=
  if c.toNat < 0x10000 then [c.toNat.toUInt16]
  else [(0xD800 + (c.toNat - 0x10000) / 0x400).toUInt16, (0xDC00 + (c.toNat - 0x10000) % 0x400).toUInt16]

/-- A Java string literal. -/
def str (s : String) : JString := s.toList.flatMap utf16

/-- A Java character literal. -/
def chr (c : Char) : JChar := c.toNat.toUInt16

/-- `String.valueOf(s)`, which is also what a concatenation takes of a reference. -/
def valueOf : Option JString → JString
  | none => str "null"
  | some s => s

namespace JString

/-- `a.compareTo(b) <= 0`. -/
def le (a b : JString) : Bool := !decide (b < a)

/-- `s.startsWith(t)`. -/
def startsWith (s t : JString) : Bool := t.isPrefixOf s

/-- `s.endsWith(t)`. -/
def endsWith (s t : JString) : Bool := t.isSuffixOf s

/-- `s.indexOf(c)`, the length of `s` when there is none. -/
def indexOf (s : JString) (c : JChar) : ℕ := s.idxOf c

/-- `s.substring(0, s.lastIndexOf(c) + 1)`. -/
def uptoLast (s : JString) (c : JChar) : JString := (s.reverse.dropWhile (· ≠ c)).reverse

end JString

/-- The elements of a `TreeSet<String>`, in its iteration order. -/
def treeSet (l : List JString) : List JString := l.dedup.insertionSort (fun a b => a.le b)

@[simp] theorem mem_treeSet {l : List JString} {a : JString} : a ∈ treeSet l ↔ a ∈ l := by
  simp [treeSet]

end Libjadx
