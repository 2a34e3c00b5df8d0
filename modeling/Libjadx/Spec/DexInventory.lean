import Libjadx.Spec.ControlFlow

/-!
# The inventory of owned code

`OwnedDexAnalysis.inventoryCode`: the other decoder of code items, which counts what it finds
against the quotas of the whole analysis. The boundaries and the sizes that it has on its way are
what it returns here.
-/

namespace Libjadx

namespace DexCode

/-- What `skip` moves over: as many units as an opcode has, or as the header of a payload says. -/
structure SkipsRecords (code : DexCode) : Prop where
  instruction : ∀ offset op info, code.getRawOpcodeUnit offset = .ok op →
    code.insnInfo op = some info → 0 ≤ info.length →
    code.skipLength offset = info.length.toNat
  payload : ∀ offset op info count, code.getRawOpcodeUnit offset = .ok op →
    code.insnInfo op = some info → info.length < 0 →
    le16 code.file ((code.fileOffset offset).toNat + 2) = .ok count →
      (op = 0x100 → code.skipLength offset = 4 + count * 2) ∧
        (op = 0x200 → code.skipLength offset = 2 + count * 4) ∧
        (op = 0x300 → ∀ size, le32 code.file ((code.fileOffset offset).toNat + 4) = .ok size →
          code.skipLength offset = 4 + (size * count + 1) / 2)

end DexCode

namespace OwnedDexAnalysis

open DexCode

inductive Quota
  | INPUTS | FILE_BYTES | TOTAL_BYTES | CLASSES | FIELDS | METHODS | UNITS | RECORDS | TRIES |
    HANDLERS | CASES | TEXT
deriving DecidableEq

def Quota.name : Quota → JString
  | .INPUTS => str "INPUTS"
  | .FILE_BYTES => str "FILE_BYTES"
  | .TOTAL_BYTES => str "TOTAL_BYTES"
  | .CLASSES => str "CLASSES"
  | .FIELDS => str "FIELDS"
  | .METHODS => str "METHODS"
  | .UNITS => str "UNITS"
  | .RECORDS => str "RECORDS"
  | .TRIES => str "TRIES"
  | .HANDLERS => str "HANDLERS"
  | .CASES => str "CASES"
  | .TEXT => str "TEXT"

def LIMITS : Quota → ℕ
  | .INPUTS => 4
  | .FILE_BYTES => 2097152
  | .TOTAL_BYTES => 4194304
  | .CLASSES => 128
  | .FIELDS => 2048
  | .METHODS => 2048
  | .UNITS => 65536
  | .RECORDS => 32768
  | .TRIES => 1024
  | .HANDLERS => 4096
  | .CASES => 4096
  | .TEXT => 262144

/-- Why an input is not taken. -/
inductive Refused
  | IllegalArgumentException (message : JString)
  | IllegalStateException (message : JString)
  | IndexOutOfBoundsException
  | ArithmeticException
  /-- Whatever the reader throws. -/
  | reader (refusal : Refusal)

/-- What has been counted. -/
structure Counted where
  used : Quota → ℕ
  referencedHandlers : ℕ

/-- The files that are taken: plain dex of a known version. -/
def plainDex (content : List UInt8) : Bool :=
  112 ≤ content.length && content.take 4 == [0x64, 0x65, 0x78, 0x0a] && content[7]? == some 0 &&
    [[0x30, 0x33, 0x35], [0x30, 0x33, 0x37], [0x30, 0x33, 0x38], [0x30, 0x33, 0x39],
      [0x30, 0x34, 0x30]].contains ((content.drop 4).take 3)

def refuse {α : Type} (message : String) : Except Refused α :=
  .error (.IllegalArgumentException (str message))

def reading {α : Type} : Except Refusal α → Except Refused α
  | .ok a => .ok a
  | .error refusal => .error (.reader refusal)

def check (key : Quota) (count : ℕ) : Except Refused Unit :=
  if LIMITS key < count then .error (.IllegalArgumentException (str "Owned admission limit: " ++
    key.name)) else .ok ()

def add (used : Quota → ℕ) (key : Quota) (count : ℕ) : Except Refused (Quota → ℕ) :=
  if LIMITS key < used key + count then .error
    (.IllegalArgumentException (str "Owned admission limit: " ++ key.name))
  else .ok fun k => if k = key then used key + count else used k

/-- `getShort` of the file, without its sign. -/
def getShort (file : List UInt8) (i : ℕ) : Except Refused ℕ :=
  match le16 file i with
  | .ok n => .ok n
  | .error _ => .error .IndexOutOfBoundsException

/-- `getInt` of the file, without its sign. -/
def getInt (file : List UInt8) (i : ℕ) : Except Refused ℕ :=
  match le32 file i with
  | .ok n => .ok n
  | .error _ => .error .IndexOutOfBoundsException

def toIntExact (n : ℕ) : Except Refused ℕ :=
  if MAX_VALUE < n then .error .ArithmeticException else .ok n

def lebNext (file : List UInt8) (signed : Bool) (pos : ℕ) : Except Refused (ℤ × ℕ) :=
  match leb file signed pos with
  | some r => .ok r
  | none =>
    match Leb128.loop (fun i => file[i]?) 5 0 0 pos with
    | none => refuse "Malformed LEB"
    | some _ => refuse "LEB overflow"

/-! ## Records -/

/-- Where the next record is, what is used until there, and the boundaries of the records before. -/
structure Walk where
  next : ℕ
  used : Quota → ℕ
  instructions : List (ℕ × ℕ)
  payloads : List (ℕ × ℕ)

variable (code : DexCode) (units : ℕ) (interrupted : ℕ → Bool)

/-- The length of a record, and what is used with its cases. -/
def extent (w : Walk) (used : Quota → ℕ) (op : ℕ) (info : InsnInfo) :
    Except Refused ((Quota → ℕ) × ℤ) :=
  let offset := (code.fileOffset w.next).toNat
  if info.length < 0 then
    if w.next % 2 ≠ 0 ∨ units - w.next < (if op = 0x200 then 2 else 4) then refuse "Payload header"
    else do
      let size ← getShort code.file (offset + 2)
      if op = 0x100 ∨ op = 0x200 then do
        let used ← add used .CASES size
        pure (used, if op = 0x100 then 4 + (size : ℤ) * 2 else 2 + (size : ℤ) * 4)
      else if op = 0x300 ∧ size ∈ [1, 2, 4, 8] then do
        let value ← getInt code.file (offset + 4)
        pure (used, ((4 + (value * size + 1) / 2 : ℕ) : ℤ))
      else refuse "Payload kind"
  else if op % 0x100 = 0 ∧ op ≠ 0 then refuse "Unknown pseudo-opcode"
  else pure (used, info.length)

/-- The consumer of the records. The reader has the opcode unit of a record before it calls the
consumer; here it is read behind the interruption and the quota, so that only which of several
refusals comes first can differ. -/
def accept (offset : ℕ) (w : Walk) : Except Refused Walk :=
  if interrupted offset then .error
    (.IllegalStateException (str "Owned analysis interrupted cooperatively"))
  else do
    let used ← add w.used .RECORDS 1
    let op ← reading (code.getRawOpcodeUnit offset)
    match code.insnInfo op with
    | none => refuse "Malformed opcode"
    | some info =>
      if offset ≠ w.next then refuse "Malformed opcode"
      else do
        let (used, length) ← extent code units w used op info
        if length ≤ 0 ∨ (units : ℤ) - w.next < length then refuse "Instruction extent"
        else if (code.skipLength offset : ℤ) ≠ length then refuse "Skip extent mismatch"
        else if info.length < 0 then
          pure { w with next := w.next + length.toNat, used := used, payloads := w.payloads ++
            [(offset, length.toNat)] }
        else pure { w with
          next := w.next + length.toNat
          used := used
          instructions := w.instructions ++ [(offset, length.toNat)] }

/-! ## Handlers -/

/-- A type and an address, so many times. -/
def typedPairs (file : List UInt8) : ℕ → ℕ → Except Refused ℕ
  | 0, pos => pure pos
  | n + 1, pos => do
    let (_, pos) ← lebNext file false pos
    let (_, pos) ← lebNext file false pos
    typedPairs file n pos

/-- The address of the handler of everything, if there is one. -/
def catchAll (file : List UInt8) (signed : ℤ) (pos : ℕ) : Except Refused ℕ :=
  if signed ≤ 0 then do
    let (_, pos) ← lebNext file false pos
    pure pos
  else pure pos

/-- The relative offsets and the sizes of the encoded handler lists, so many. -/
def handlerSizes (file : List UInt8) (handlersStart : ℕ) :
    ℕ → (Quota → ℕ) → ℕ → Except Refused ((Quota → ℕ) × List (ℕ × ℕ))
  | 0, used, _ => pure (used, [])
  | n + 1, used, pos => do
    let (signed, next) ← lebNext file true pos
    let typed := signed.natAbs
    let count := typed + if signed ≤ 0 then 1 else 0
    let used ← add used .HANDLERS count
    let next ← typedPairs file typed next
    let next ← catchAll file signed next
    let (used, sizes) ← handlerSizes file handlersStart n used next
    pure (used, (pos - handlersStart, count) :: sizes)

/-- The sizes of the lists of the tries, so many; no two lists have one offset. -/
def trySizes (file : List UInt8) (sizes : List (ℕ × ℕ)) : ℕ → ℕ → ℕ → Except Refused (ℕ × List ℕ)
  | 0, _, referenced => pure (referenced, [])
  | n + 1, p, referenced => do
    let key ← getShort file (p + 6)
    match sizes.find? (·.1 == key) with
    | none => refuse "Referenced handlers"
    | some (_, size) =>
      if LIMITS .HANDLERS < referenced + size then refuse "Referenced handlers"
      else do
        let (referenced, rest) ← trySizes file sizes n (p + 8) (referenced + size)
        pure (referenced, size :: rest)

/-! ## Code items -/

/-- What one code item adds, and its boundaries, its handler lists and the sizes of those of its
tries. -/
structure Inventory where
  counted : Counted
  instructions : List (ℕ × ℕ)
  payloads : List (ℕ × ℕ)
  sizes : List (ℕ × ℕ)
  tries : List ℕ

def inventoryCode (s : Counted) : Except Refused Inventory := do
  let units ← reading code.getUnitsCount
  let used ← add s.used .UNITS units
  if 4096 < units ∨ code.codeOffset < 0 ∨ (code.file.length : ℤ) < code.codeOffset + 16 + units *
    2 then refuse "Code extent"
  else do
    let start := code.codeOffset.toNat
    let tries ← getShort code.file (start + 6)
    let used ← add used .TRIES tries
    let w ← code.visitInstructions (.reader .malformed) units (accept code units interrupted)
      (units + 1) 0 ⟨0, used, [], []⟩
    if w.next ≠ units then refuse "Code end"
    else if tries = 0 then pure ⟨⟨w.used, s.referencedHandlers⟩, w.instructions, w.payloads, [], []⟩
    else do
      let table ← toIntExact (start + 16 + units * 2 + units % 2 * 2)
      let handlersStart ← toIntExact (table + tries * 8)
      if code.file.length < handlersStart then refuse "Try extent"
      else do
        let (lists, pos) ← lebNext code.file false handlersStart
        check .HANDLERS lists.toNat
        let (used, sizes) ← handlerSizes code.file handlersStart lists.toNat w.used pos
        let (referenced, tries) ← trySizes code.file sizes tries table s.referencedHandlers
        pure ⟨⟨used, referenced⟩, w.instructions, w.payloads, sizes, tries⟩

/-! ## Files -/

inductive CodeReader
  | absent
  | foreign
  | dex (code : DexCode)

/-- A method as the reader visits it, and at which records of its code the thread is interrupted. -/
structure DexMethod where
  name : JString
  argTypes : List JString
  returnType : JString
  codeReader : CodeReader
  interrupted : ℕ → Bool

structure DexField where
  name : JString
  type : JString

/-- A class as the reader visits it, and whether the thread is interrupted then. -/
structure DexClass where
  interrupted : Bool
  type : JString
  superType : Option JString
  interfaces : List JString
  fields : List DexField
  methods : List DexMethod

structure DexReader where
  classDefsSize : ℕ
  classes : List DexClass

def Counted.add (s : Counted) (key : Quota) (count : ℕ) : Except Refused Counted := do
  let used ← OwnedDexAnalysis.add s.used key count
  pure { s with used := used }

def texts : List JString → Counted → Except Refused Counted
  | [], s => pure s
  | value :: values, s => do
    let s ← s.add .TEXT value.length
    texts values s

def methodTexts (m : DexMethod) : List JString := m.name :: (m.argTypes ++ [m.returnType])

def inventoryMethods : List DexMethod → Counted → Except Refused Counted
  | [], s => pure s
  | m :: methods, s => do
    let s ← texts (methodTexts m) s
    match m.codeReader with
    | .absent => inventoryMethods methods s
    | .foreign => refuse "Non-DEX reader"
    | .dex code => do
      let inventory ← inventoryCode code m.interrupted s
      inventoryMethods methods inventory.counted

def classTexts (c : DexClass) : List JString := c.type :: (c.superType.toList ++ c.interfaces)

def fieldTexts (c : DexClass) : List JString := c.fields.flatMap fun f => [f.name, f.type]

def inventoryClasses : List DexClass → Counted → Except Refused Counted
  | [], s => pure s
  | c :: classes, s =>
    if c.interrupted then .error (.IllegalStateException (str "Owned analysis interrupted cooperatively"))
    else do
      let s ← texts (classTexts c) s
      let s ← s.add .FIELDS c.fields.length
      let s ← texts (fieldTexts c) s
      let s ← s.add .METHODS c.methods.length
      let s ← inventoryMethods c.methods s
      inventoryClasses classes s

def inventory (reader : DexReader) (s : Counted) : Except Refused Counted := do
  let s ← s.add .CLASSES reader.classDefsSize
  inventoryClasses reader.classes s

/-- What is read at once, and whether the thread is interrupted then. -/
structure Chunk where
  interrupted : Bool
  bytes : List UInt8

/-- An accepted input: the size of its channel, what is read of it, and what the loader makes of
that. -/
structure Input where
  size : ℕ
  chunks : List Chunk
  readers : List DexReader

def Input.content (input : Input) : List UInt8 := input.chunks.flatMap Chunk.bytes

/-- The loop over the chunks, after so many bytes. -/
def readChunks : List Chunk → ℕ → Counted → Except Refused Counted
  | [], _, s => pure s
  | chunk :: chunks, count, s =>
    if chunk.interrupted then .error
      (.IllegalStateException (str "Owned analysis interrupted cooperatively"))
    else do
      check .FILE_BYTES (count + chunk.bytes.length)
      let s ← s.add .TOTAL_BYTES chunk.bytes.length
      readChunks chunks (count + chunk.bytes.length) s

def acquireEach : List Input → Counted → Except Refused Counted
  | [], s => pure s
  | input :: inputs, s => do
    check .FILE_BYTES input.size
    let s ← readChunks input.chunks 0 s
    if plainDex input.content then
      match input.readers with
      | [reader] => do
        let s ← inventory reader s
        acquireEach inputs s
      | _ => refuse "DEX containers unsupported"
    else refuse "Only plain DEX 035–040 supported by owned analysis"

/-- `acquire`, for what it counts. It refuses besides what is refused here: a path that is not
absolute, normal, real and under an allowed root, a file that cannot be opened as a regular one or
is gone, a content with another fingerprint, a loader with another checksum policy, and a census
that is not complete. -/
def acquire (mappingsAttached : Bool) (inputs : List Input) : Except Refused Counted :=
  if mappingsAttached then refuse "Owned DEX analysis does not support attached mappings"
  else do
    let s ← (Counted.mk (fun _ => 0) 0).add .INPUTS inputs.length
    if inputs.isEmpty then refuse "Owned inputs required" else acquireEach inputs s

/-! ## What is counted -/

/-- The quotas that the code items use. -/
def Quota.ofCode : Quota → Bool
  | .UNITS | .RECORDS | .TRIES | .HANDLERS | .CASES => true
  | _ => false

/-- All counts are within their limits. -/
def Counted.Within (s : Counted) : Prop :=
  (∀ k, s.used k ≤ LIMITS k) ∧ s.referencedHandlers ≤ LIMITS .HANDLERS

def textLength (values : List JString) : ℕ := (values.map List.length).sum

/-- What a class adds to a quota. -/
def DexClass.count (c : DexClass) : Quota → ℕ
  | .TEXT => textLength (classTexts c) + textLength (fieldTexts c) + (c.methods.map fun m =>
    textLength (methodTexts m)).sum
  | .FIELDS => c.fields.length
  | .METHODS => c.methods.length
  | _ => 0

/-- What a file adds to a quota. -/
def DexReader.count (reader : DexReader) : Quota → ℕ
  | .CLASSES => reader.classDefsSize
  | k => (reader.classes.map (·.count k)).sum

/-- What an input adds to a quota. -/
def Input.count (input : Input) : Quota → ℕ
  | .TOTAL_BYTES => input.content.length
  | k => (input.readers.map (·.count k)).sum

/-- What all inputs add to a quota. -/
def inputsCount (inputs : List Input) : Quota → ℕ
  | .INPUTS => inputs.length
  | k => (inputs.map (·.count k)).sum

/-- The code of the methods is in the bytes that were read. -/
def Input.Loaded (input : Input) : Prop :=
  ∀ reader ∈ input.readers, ∀ c ∈ reader.classes, ∀ m ∈ c.methods, ∀ code, m.codeReader =
    .dex code → code.file = input.content

/-- The records take the units from `a` until `b`, one after the other. -/
def Laid (a b : ℕ) : List (ℕ × ℕ) → Prop
  | [] => a = b
  | r :: records => r.1 = a ∧ 0 < r.2 ∧ Laid (a + r.2) b records

/-- What is taken of an input: its channel and its content are not too large, it is a plain dex file
and has one reader. -/
structure Input.Admitted (input : Input) : Prop where
  size : input.size ≤ LIMITS .FILE_BYTES
  content : input.content.length ≤ LIMITS .FILE_BYTES
  plain : plainDex input.content = true
  reader : ∃ reader, input.readers = [reader]

/-- Where the tries of a code item are, behind its units. -/
def tryTable (code : DexCode) (units : ℕ) : ℕ :=
  code.codeOffset.toNat + 16 + units * 2 + units % 2 * 2

/-- An encoded handler list is at this offset, with so many handlers: its signed size, the typed
pairs, and the handler of everything if the size is not positive. -/
def ListAt (file : List UInt8) (offset count : ℕ) : Prop :=
  ∃ signed typed all stop, lebNext file true offset = .ok (signed, typed) ∧
    count = signed.natAbs + (if signed ≤ 0 then 1 else 0) ∧
      typedPairs file signed.natAbs typed = .ok all ∧
      catchAll file signed all = .ok stop

/-- An accepted code item of so many units and tries, as its header says. It is in its file and
covered by its records; every entry of its table of tries names the offset of one of the handler
lists behind the table, and has the size of that list; and these are encoded there. -/
structure Inventory.WellFormed (code : DexCode) (units tries : ℕ) (inventory : Inventory) :
    Prop where
  start : 0 ≤ code.codeOffset
  unitsCount : code.getUnitsCount = .ok units
  small : units ≤ 4096
  stop : code.codeOffset + 16 + 2 * units ≤ code.file.length
  laid : ∃ records, Laid 0 units records ∧
    records.Perm (inventory.instructions ++ inventory.payloads)
  header : le16 code.file (code.codeOffset.toNat + 6) = .ok tries
  length : inventory.tries.length = tries
  entries : ∀ (n : ℕ) (size : ℕ), inventory.tries[n]? = some size →
    ∃ key, le16 code.file (tryTable code units + n * 8 + 6) = .ok key ∧
      (key, size) ∈ inventory.sizes
  lists : ∀ l ∈ inventory.sizes, ListAt code.file (tryTable code units + tries * 8 + l.1) l.2

/-- Refused by this code or by the reader, and not by an access outside the file or a number that is
too large. -/
def Refused.Deliberate : Refused → Prop
  | .IndexOutOfBoundsException | .ArithmeticException => False
  | _ => True

/-! ## Both decoders -/

/-- What the other decoder has counted of a code item fits what is left. -/
structure Fits (s : Counted) (r : JadxControlFlowAdapter.Decoded) : Prop where
  units : s.used .UNITS + r.units ≤ LIMITS .UNITS
  records : s.used .RECORDS + r.decoder.records ≤ LIMITS .RECORDS
  tries : s.used .TRIES + r.tries.length ≤ LIMITS .TRIES
  cases : s.used .CASES + r.decoder.cases ≤ LIMITS .CASES
  handlers : s.used .HANDLERS + (r.handlers.map (·.2.length)).sum ≤ LIMITS .HANDLERS
  referenced : s.referencedHandlers + (r.tries.map (·.handlers.length)).sum ≤ LIMITS .HANDLERS

/-- The two decoders say the same of a code item. -/
structure Agrees (r : JadxControlFlowAdapter.Decoded) (inventory : Inventory) : Prop where
  instructions : inventory.instructions = r.scan.instructions.map fun i => (i.offset, i.length)
  payloads : inventory.payloads = r.scan.payloads.map fun p => (p.offset, p.length)
  sizes : inventory.sizes = r.handlers.map fun l => (l.1, l.2.length)
  tries : inventory.tries = r.scan.tries.map fun t => t.handlers.length

end OwnedDexAnalysis

end Libjadx
