import Libjadx.Lib.Leb128
import Libjadx.Spec.Text

/-!
# The code items of a dex file

What both decoders of dex code read: the bytes of the file, and the records of a code item as the
pinned reader presents them. How an opcode is laid out, how far the reader's own `skip` goes and how
a type index is written are the reader's; the bytes are the file's.
-/

namespace Libjadx

/-- Why a decoder gives up: everything that `extract` turns into `FAILED`, and a `LimitException`.
-/
inductive Refusal
  | malformed
  | limit
deriving DecidableEq

/-- `DexInsnInfo`: a payload has a negative length. -/
structure InsnInfo where
  mnemonic : JString
  length : ℤ

/-- The reader of one code item. -/
structure DexCode where
  file : List UInt8
  codeOffset : ℤ
  /-- `DexInsnInfo.get`, of the first unit of a record. -/
  insnInfo : ℕ → Option InsnInfo
  /-- The units that `skip` moves over, of the record at an offset; the length of the record
  afterwards. -/
  skipLength : ℕ → ℕ
  /-- `getIndexAsType`. -/
  indexAsType : ℕ → Option JString

namespace DexCode

def require (valid : Bool) : Except Refusal Unit := if valid then .ok () else .error .malformed

def limit (count max : ℕ) : Except Refusal Unit := if max < count then .error .limit else .ok ()

/-! ## Bytes -/

/-- `getShort` of a little-endian buffer, without its sign. -/
def le16 (bytes : List UInt8) (i : ℕ) : Except Refusal ℕ :=
  match bytes[i]?, bytes[i + 1]? with
  | some a, some b => .ok (a.toNat + 0x100 * b.toNat)
  | _, _ => .error .malformed

/-- `getInt` of a little-endian buffer, without its sign. -/
def le32 (bytes : List UInt8) (i : ℕ) : Except Refusal ℕ := do
  let low ← le16 bytes i
  let high ← le16 bytes (i + 2)
  pure (low + 0x10000 * high)

/-- The `byte` of these bits. -/
def toByte (n : ℕ) : ℤ := if n < 0x80 then n else n - 0x100

def toShort (n : ℕ) : ℤ := if n < 0x8000 then n else n - 0x10000

def toInt (n : ℕ) : ℤ := if n < 0x80000000 then n else n - 0x100000000

/-- `Integer.MAX_VALUE`. -/
def MAX_VALUE : ℕ := 0x7FFFFFFF

variable (code : DexCode)

/-- `getByteCode`, of so many units. -/
def getByteCode (start : ℤ) (units : ℕ) : Except Refusal (List UInt8) :=
  if 0 ≤ start ∧ start + 2 * units ≤ code.file.length then .ok ((code.file.drop start.toNat).take
    (2 * units))
  else .error .malformed

/-- Where the unit of an offset is in the file. -/
def fileOffset (offset : ℕ) : ℤ := code.codeOffset + 16 + 2 * offset

/-- `getUnitsCount`, without its sign. -/
def getUnitsCount : Except Refusal ℕ := do
  let bytes ← code.getByteCode (code.codeOffset + 12) 2
  le32 bytes 0

/-- `getRawOpcodeUnit`, of the record at an offset. -/
def getRawOpcodeUnit (offset : ℕ) : Except Refusal ℕ := do
  let bytes ← code.getByteCode (code.fileOffset offset) 1
  le16 bytes 0

/-- `insn.getByteCode()`, of the record at an offset with a length set. -/
def insnByteCode (offset units : ℕ) : Except Refusal (List UInt8) :=
  code.getByteCode (code.fileOffset offset) units

end DexCode

/-! ## LEB128 -/

/-- The reader that both decoders have: five rounds are those with a shift below 35, and `-1L <<
shift` is all ones above the bits that were read. -/
def lebIn (read : ℕ → Option UInt8) (signed : Bool) (pos : ℕ) : Option (ℤ × ℕ) :=
  match Leb128.loop read 5 0 0 pos with
  | none => none
  | some t =>
    let value : ℤ := if signed && Leb128.negative t.last then (t.value : ℤ) - 2 ^ t.shift
      else t.value
    if (if signed then -0x80000000 ≤ value ∧ value ≤ 0x7FFFFFFF else value ≤ 0xFFFFFFFF) then some
      (value, t.pos) else none

namespace JadxControlFlowAdapter

open DexCode

variable (code : DexCode)

/-- The public byte accessor, for any even number of bytes. -/
def bytes (offset : ℤ) (length : ℕ) : Except Refusal (List UInt8) := do
  require (decide (0 ≤ offset) && length % 2 == 0 && decide (offset + length ≤ MAX_VALUE))
  code.getByteCode offset (length / 2)

/-- The byte of a pair of bytes. -/
def u8 (offset : ℕ) : Except Refusal UInt8 := do
  let pair ← bytes code (offset - offset % 2 : ℕ) 2
  match pair[offset % 2]? with
  | some b => pure b
  | none => throw .malformed

def u16 (offset : ℤ) : Except Refusal ℕ := do
  let b ← bytes code offset 2
  le16 b 0

def u32 (offset : ℤ) : Except Refusal ℕ := do
  let b ← bytes code offset 4
  le32 b 0

def leb (signed : Bool) (pos : ℕ) : Option (ℤ × ℕ) :=
  lebIn (fun i => (u8 code i).toOption) signed pos

end JadxControlFlowAdapter

namespace OwnedDexAnalysis

def leb (bytes : List UInt8) (signed : Bool) (pos : ℕ) : Option (ℤ × ℕ) :=
  lebIn (fun i => bytes[i]?) signed pos

end OwnedDexAnalysis

end Libjadx
