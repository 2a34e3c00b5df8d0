import Libjadx.Spec.DexCode

/-!
# Control-flow facts

`JadxControlFlowAdapter`: what is published about the code item of a method, and the decoder that
reads it. The reader calls the decoder once for each record; a record is at the offset where the
records before it have been skipped to.
-/

namespace Libjadx

namespace ControlFlowFacts

structure Instruction where
  offset : ℕ
  length : ℕ
  opcode : JString

inductive PayloadKind
  | PACKED_SWITCH | SPARSE_SWITCH | ARRAY_DATA
deriving DecidableEq

structure Payload where
  offset : ℕ
  length : ℕ
  kind : PayloadKind

structure Branch where
  offset : ℕ
  opcode : JString
  target : ℕ
  nextOffset : ℕ

structure Case where
  key : ℤ
  target : ℕ

inductive SwitchOpcode
  | packedSwitch | sparseSwitch
deriving DecidableEq

structure Switch where
  offset : ℕ
  opcode : SwitchOpcode
  payloadOffset : ℕ
  defaultOffset : ℕ
  cases : List Case

structure ArrayData where
  offset : ℕ
  payloadOffset : ℕ

/-- Without a type, the handler of everything. -/
structure Handler where
  type : Option JString
  target : ℕ

structure Try where
  start : ℕ
  endExclusive : ℕ
  handlers : List Handler

end ControlFlowFacts

namespace DexCode

variable {ε σ : Type} (code : DexCode)

/-- `visitInstructions` of a consumer that skips every record itself; `stuck` is what comes of
records without a length. -/
def visitInstructions (stuck : ε) (units : ℕ) (accept : ℕ → σ → Except ε σ) : ℕ → ℕ → σ → Except ε σ
  | 0, _, _ => .error stuck
  | rounds + 1, offset, s =>
    if offset < units then do
      let s ← accept offset s
      visitInstructions stuck units accept rounds (offset + code.skipLength offset) s
    else pure s

end DexCode

namespace JadxControlFlowAdapter

open ControlFlowFacts DexCode

inductive Availability
  | AVAILABLE | UNAVAILABLE | FAILED
deriving DecidableEq

structure Scan where
  availability : Availability
  reason : JString
  units : Option ℕ
  instructions : List Instruction
  payloads : List Payload
  branches : List Branch
  switches : List Switch
  arrayData : List ArrayData
  tries : List Try

def Scan.empty (availability : Availability) (reason : JString) : Scan :=
  ⟨availability, reason, none, [], [], [], [], [], []⟩

/-- A switch or a `fill-array-data`: its offset, its opcode and the offset of its payload. -/
structure PayloadUse where
  offset : ℕ
  opcode : ℕ
  payload : ℕ

/-- The fields of the decoder. -/
structure Decoder where
  next : ℕ := 0
  records : ℕ := 0
  cases : ℕ := 0
  instructions : List Instruction := []
  payloads : List Payload := []
  branches : List Branch := []
  payloadBytes : List (ℕ × List UInt8) := []
  starts : List ℕ := []
  payloadUses : List PayloadUse := []

variable (code : DexCode) (units : ℕ)

def destination (offset : ℕ) (delta : ℤ) : Except Refusal ℕ := do
  require (decide (0 ≤ offset + delta) && decide (offset + delta < units))
  pure (offset + delta).toNat

def executable (d : Decoder) (offset : ℕ) : Except Refusal Unit :=
  require (d.starts.contains offset)

/-- The cases until now, the kind of a payload and its extent in units. -/
def payloadExtent (cases op count : ℕ) (header : List UInt8) :
    Except Refusal (ℕ × PayloadKind × ℕ) :=
  if op = 0x100 ∨ op = 0x200 then do
    limit (cases + count) 1024
    pure (cases + count, if op = 0x100 then .PACKED_SWITCH else .SPARSE_SWITCH,
      if op = 0x100 then 4 + count * 2 else 2 + count * 4)
  else do
    require (op == 0x300 && (count == 1 || count == 2 || count == 4 || count == 8))
    let size ← le32 header 4
    pure (cases, .ARRAY_DATA, 4 + (size * count + 1) / 2)

def acceptPayload (d : Decoder) (op : ℕ) : Except Refusal Decoder := do
  require (d.next % 2 == 0)
  let headerUnits := if op = 0x300 then 4 else if op = 0x100 then 4 else 2
  require (decide (headerUnits ≤ units - d.next))
  let header ← code.insnByteCode d.next headerUnits
  let count ← le16 header 2
  let (cases, kind, extent) ← payloadExtent d.cases op count header
  require (decide (extent ≤ units - d.next))
  let bytes ← code.insnByteCode d.next extent
  pure { d with next := d.next + extent, cases := cases, payloads := d.payloads ++
                [⟨d.next, extent, kind⟩],
                payloadBytes := d.payloadBytes ++ [(d.next, bytes)] }

/-- A branch: `goto`, `goto/16`, `goto/32` and the comparisons. -/
def isBranch (opcode : ℕ) : Bool :=
  (0x28 ≤ opcode && opcode ≤ 0x2a) || (0x32 ≤ opcode && opcode ≤ 0x3d)

def usesPayload (opcode : ℕ) : Bool := opcode == 0x26 || opcode == 0x2b || opcode == 0x2c

def branchDelta (op : ℕ) (bytes : List UInt8) : Except Refusal ℤ :=
  if op % 0x100 = 0x28 then pure (toByte (op / 0x100))
  else if op % 0x100 = 0x2a then do
    let delta ← le32 bytes 2
    pure (toInt delta)
  else do
    let delta ← le16 bytes 2
    pure (toShort delta)

def acceptInstruction (d : Decoder) (op : ℕ) (info : InsnInfo) : Except Refusal Decoder := do
  require (decide (0 < info.length) && decide (info.length ≤ units - d.next))
  let length := info.length.toNat
  let bytes ← code.insnByteCode d.next length
  let opcode := op % 0x100
  require (opcode != 0 || op == 0)
  let e := { d with next := d.next + length, instructions := d.instructions ++
                    [⟨d.next, length, info.mnemonic⟩],
                    starts := d.starts ++ [d.next] }
  if isBranch opcode then
    let delta ← branchDelta op bytes
    let target ← destination units d.next delta
    pure { e with branches := d.branches ++ [⟨d.next, info.mnemonic, target, d.next + length⟩] }
  else if usesPayload opcode then
    let delta ← le32 bytes 2
    let target ← destination units d.next (toInt delta)
    pure { e with payloadUses := d.payloadUses ++ [⟨d.next, opcode, target⟩] }
  else pure e

/-- The first record also looks at the number of tries. -/
def checkTries (d : Decoder) : Except Refusal Unit :=
  if d.next = 0 then do
    let tries ← u16 code (code.codeOffset + 6)
    limit tries 256
  else pure ()

/-- The consumer of the records. -/
def accept (offset : ℕ) (d : Decoder) : Except Refusal Decoder := do
  let op ← code.getRawOpcodeUnit offset
  checkTries code d
  match code.insnInfo op with
  | none => throw .malformed
  | some info =>
    require (offset == d.next)
    limit (d.records + 1) 1024
    let d := { d with records := d.records + 1 }
    if info.length < 0 then acceptPayload code units d op
      else acceptInstruction code units d op info

/-! ## Switches -/

def caseKey (packed : Bool) (data : List UInt8) (i : ℕ) : Except Refusal ℤ :=
  if packed then do
    let first ← le32 data 4
    pure (toInt first + i)
  else do
    let key ← le32 data (4 + i * 4)
    pure (toInt key)

/-- The cases from `i` on, so many. -/
def readCases (d : Decoder) (packed : Bool) (offset count : ℕ) (data : List UInt8) :
    ℕ → ℕ → Option ℤ → Except Refusal (List Case)
  | 0, _, _ => pure []
  | n + 1, i, previous => do
    let key ← caseKey packed data i
    require (decide (-0x80000000 ≤ key) && decide (key ≤ 0x7FFFFFFF) && previous.all (· < key))
    let delta ← le32 data (if packed then 8 + i * 4 else 4 + count * 4 + i * 4)
    let target ← destination units offset (toInt delta)
    executable d target
    let rest ← readCases d packed offset count data n (i + 1) (some key)
    pure (⟨key, target⟩ :: rest)

/-- The uses of payloads, after so many cases: the switches, the array data and all their cases. -/
def resolveUses (d : Decoder) : List PayloadUse → ℕ → Except Refusal (List Switch × List ArrayData)
  | [], _ => pure ([], [])
  | use :: uses, usedCases => do
    match d.payloadBytes.find? (·.1 == use.payload) with
    | none => throw .malformed
    | some (_, data) =>
      let ident ← le16 data 0
      require (ident == if use.opcode = 0x26 then 0x300 else if use.opcode = 0x2b then 0x100 else 0x200)
      if use.opcode = 0x26 then
        let (switches, arrays) ← resolveUses d uses usedCases
        pure (switches, ⟨use.offset, use.payload⟩ :: arrays)
      else
        executable d (use.offset + 3)
        let count ← le16 data 2
        limit (usedCases + count) 1024
        let entries ← readCases units d (use.opcode == 0x2b) use.offset count data count 0 none
        let (switches, arrays) ← resolveUses d uses (usedCases + count)
        let opcode := if use.opcode = 0x2b then SwitchOpcode.packedSwitch else .sparseSwitch
        pure (⟨use.offset, opcode, use.payload, use.offset + 3, entries⟩ :: switches, arrays)

/-! ## Tries -/

/-- A LEB128 number, and what is behind it. -/
def lebNext (signed : Bool) (pos : ℕ) : Except Refusal (ℤ × ℕ) :=
  (leb code signed pos).elim (throw .malformed) pure

/-- The loop over the bytes of a type's name: every character has three of them at most. -/
def skipName (chars : ℤ) (start : ℕ) : ℕ → ℕ → Except Refusal Unit
  | 0, _ => throw .malformed
  | rounds + 1, p => do
    let b ← u8 code p
    if b = 0 then pure ()
    else
      require (decide ((p : ℤ) - start < chars * 3))
      skipName chars start rounds (p + 1)

def type (index : ℕ) : Except Refusal JString := do
  let count ← u32 code 64
  let table ← u32 code 68
  require (decide (index < count) && decide (table + index * 4 ≤ MAX_VALUE))
  let string ← u32 code (table + index * 4 : ℕ)
  let strings ← u32 code 56
  let stringTable ← u32 code 60
  require (decide (string < strings) && decide (stringTable + string * 4 ≤ MAX_VALUE))
  let offset ← u32 code (stringTable + string * 4 : ℕ)
  require (decide (offset ≤ MAX_VALUE))
  let (chars, start) ← lebNext code false offset
  limit chars.toNat 1024
  skipName code chars start (3 * chars.toNat + 1) start
  match code.indexAsType index with
  | none => throw .malformed
  | some name =>
    require (decide ((name.length : ℤ) = chars) && name.startsWith (str "L") && name.endsWith (str ";"))
    pure name

/-- The target of a handler. -/
def handlerTarget (d : Decoder) (pos : ℕ) : Except Refusal (ℕ × ℕ) := do
  let (target, pos) ← lebNext code false pos
  require (decide (target < units))
  executable d target.toNat
  pure (target.toNat, pos)

/-- The handlers with a type, so many. -/
def typedHandlers (d : Decoder) : ℕ → ℕ → Except Refusal (List Handler × ℕ)
  | 0, pos => pure ([], pos)
  | n + 1, pos => do
    let (index, pos) ← lebNext code false pos
    let name ← type code index.toNat
    let (target, pos) ← handlerTarget code units d pos
    let (values, pos) ← typedHandlers d n pos
    pure (⟨some name, target⟩ :: values, pos)

/-- One encoded handler list, and how many handlers there are with it. -/
def handlerList (d : Decoder) (total pos : ℕ) : Except Refusal (List Handler × ℕ × ℕ) := do
  let (signed, pos) ← lebNext code true pos
  let typed := signed.natAbs
  let catchAll := if signed ≤ 0 then 1 else 0
  limit (total + (typed + catchAll)) 1024
  let minimumBytes := typed * 2 + catchAll
  let _ ← bytes code (pos - pos % 2 : ℕ) ((minimumBytes + pos % 2 + 1) / 2 * 2)
  let (values, pos) ← typedHandlers code units d typed pos
  if signed ≤ 0 then
    let (target, pos) ← handlerTarget code units d pos
    pure (values ++ [⟨none, target⟩], total + (typed + catchAll), pos)
  else pure (values, total + (typed + catchAll), pos)

/-- The encoded handler lists with their relative offsets, so many. -/
def handlerLists (d : Decoder) (handlersStart : ℕ) :
    ℕ → ℕ → ℕ → Except Refusal (List (ℕ × List Handler))
  | 0, _, _ => pure []
  | n + 1, total, pos => do
    let (values, total, next) ← handlerList code units d total pos
    let rest ← handlerLists d handlersStart n total next
    pure ((pos - handlersStart, values) :: rest)

/-- The entries of the table from `p` on, so many, after `aggregate` handlers. -/
def tryEntries (d : Decoder) (handlers : List (ℕ × List Handler)) :
    ℕ → ℕ → ℕ → ℕ → Except Refusal (List Try)
  | 0, _, _, _ => pure []
  | n + 1, p, aggregate, previousEnd => do
    let start ← u32 code p
    let count ← u16 code (p + 4 : ℕ)
    let stop := start + count
    require (decide (start < stop) && decide (stop ≤ units) && decide (previousEnd ≤ start))
    executable d start
    require (stop == units || d.starts.contains stop || d.payloadBytes.any (·.1 == stop))
    require (d.payloads.all fun payload => decide (stop ≤ payload.offset) || decide
      (payload.offset + payload.length ≤ start))
    let relative ← u16 code (p + 6 : ℕ)
    match handlers.find? (·.1 == relative) with
    | none => throw .malformed
    | some (_, values) =>
      limit (aggregate + values.length) 1024
      let rest ← tryEntries d handlers n (p + 8) (aggregate + values.length) stop
      pure (⟨start, stop, values⟩ :: rest)

/-- The tries, and the encoded handler lists. -/
def tries (d : Decoder) : Except Refusal (List Try × List (ℕ × List Handler)) := do
  let count ← u16 code (code.codeOffset + 6)
  limit count 256
  if count = 0 then pure ([], [])
  else
    let table := code.codeOffset + 16 + units * 2 + (units % 2 : ℕ) * 2
    require (decide (table ≤ MAX_VALUE - count * 8))
    let _ ← bytes code table (count * 8)
    let handlersStart := table.toNat + count * 8
    let (lists, pos) ← lebNext code false handlersStart
    limit lists.toNat 1024
    let handlers ← handlerLists code units d handlersStart lists.toNat 0 pos
    let result ← tryEntries code units d handlers count table.toNat 0 0
    pure (result, handlers)

/-! ## The scan -/

/-- All that `scan` has at its end. -/
structure Decoded where
  units : ℕ
  decoder : Decoder
  switches : List Switch
  arrays : List ArrayData
  tries : List Try
  handlers : List (ℕ × List Handler)

def checkBranch (d : Decoder) (b : Branch) : Except Refusal Unit := do
  executable d b.target
  if b.opcode.startsWith (str "goto") then pure () else executable d b.nextOffset

/-- `scan`, before what it has is published. -/
def decode : Except Refusal Decoded := do
  let units ← code.getUnitsCount
  limit units 4096
  require (decide (0 < units))
  let d ← code.visitInstructions .malformed units (accept code units) (units + 1) 0 {}
  require (d.next == units && d.starts.contains 0)
  d.branches.forM (checkBranch d)
  let (switches, arrays) ← resolveUses units d d.payloadUses 0
  let (tries, handlers) ← tries code units d
  pure ⟨units, d, switches, arrays, tries, handlers⟩

def Decoded.scan (r : Decoded) : Scan :=
  ⟨.AVAILABLE, str "Complete bounded loaded-reader traversal; semantic coverage remains PARTIAL",
    some r.units,
    r.decoder.instructions, r.decoder.payloads, r.decoder.branches, r.switches, r.arrays, r.tries⟩

/-- What stands behind the class of a method. -/
inductive CodeSource
  | foreignClass
  | missingMethod
  | foreignReader
  | reader (code : DexCode)

/-- Why `extract` has no answer. -/
inductive Thrown
  | NoSuchElementException
  | LimitException

def extract : CodeSource → Except Thrown Scan
  | .foreignClass => .ok (.empty .UNAVAILABLE (str "Class is not backed by loaded DEX"))
  | .missingMethod => .error .NoSuchElementException
  | .foreignReader => .ok (.empty .UNAVAILABLE (str "Method has no loaded DEX code reader"))
  | .reader code =>
    match decode code with
    | .ok r => .ok r.scan
    | .error .malformed =>
      .ok (.empty .FAILED (str "Malformed loaded DEX code, payload, target or try table; no facts published"))
    | .error .limit => .error .LimitException

/-! ## What is published -/

inductive Record
  | instruction (i : Instruction)
  | payload (p : Payload)

def Record.offset : Record → ℕ
  | .instruction i => i.offset
  | .payload p => p.offset

def Record.length : Record → ℕ
  | .instruction i => i.length
  | .payload p => p.length

def Record.instruction? : Record → Option Instruction
  | .instruction i => some i
  | .payload _ => none

def Record.payload? : Record → Option Payload
  | .instruction _ => none
  | .payload p => some p

/-- The records take the units from `a` until `b`, one after the other. -/
def Tiles (a b : ℕ) : List Record → Prop
  | [] => a = b
  | r :: records => r.offset = a ∧ 0 < r.length ∧ Tiles (a + r.length) b records

/-- An instruction starts here, and no payload is here. -/
def Scan.Executable (s : Scan) (n : ℕ) : Prop :=
  (∃ i ∈ s.instructions, i.offset = n) ∧ ∀ p ∈ s.payloads, n < p.offset ∨ p.offset + p.length ≤ n

def Scan.HasPayload (s : Scan) (offset : ℕ) (kind : PayloadKind) : Prop :=
  ∃ p ∈ s.payloads, p.offset = offset ∧ p.kind = kind

def switchPayload : SwitchOpcode → PayloadKind
  | .packedSwitch => .PACKED_SWITCH
  | .sparseSwitch => .SPARSE_SWITCH

/-- The opcode of the instruction at an offset, in the file. -/
def OpcodeAt (code : DexCode) (offset opcode : ℕ) : Prop :=
  ∃ op, code.getRawOpcodeUnit offset = .ok op ∧ op % 0x100 = opcode

/-- A switch, its payload and its cases. -/
structure Scan.SwitchWellFormed (s : Scan) (w : Switch) : Prop where
  payload : s.HasPayload w.payloadOffset (switchPayload w.opcode)
  default : w.defaultOffset = w.offset + 3 ∧ s.Executable w.defaultOffset
  targets : ∀ c ∈ w.cases, s.Executable c.target
  keys : ∀ c ∈ w.cases, -0x80000000 ≤ c.key ∧ c.key ≤ 0x7FFFFFFF
  increasing : w.cases.Pairwise (·.key < ·.key)

structure Scan.TryWellFormed (s : Scan) (units : ℕ) (t : Try) : Prop where
  start : s.Executable t.start
  nonempty : t.start < t.endExclusive
  stop : t.endExclusive = units ∨ (∃ i ∈ s.instructions, i.offset = t.endExclusive) ∨
    ∃ p ∈ s.payloads, p.offset = t.endExclusive
  noPayload : ∀ p ∈ s.payloads, t.endExclusive ≤ p.offset ∨ p.offset + p.length ≤ t.start
  handlers : ∀ h ∈ t.handlers, s.Executable h.target
  types : ∀ h ∈ t.handlers, ∀ name ∈ h.type, name.length ≤ 1024 ∧ name.startsWith (str "L") = true ∧
    name.endsWith (str ";") = true

/-- The reader's names of the comparisons. -/
def ComparisonsNamed (code : DexCode) : Prop :=
  ∀ op info, code.insnInfo op = some info → 0x32 ≤ op % 0x100 → op % 0x100 ≤ 0x3d →
  info.mnemonic.startsWith (str "if-") = true

/-- Where the table of the tries is. -/
def tryTable (code : DexCode) (units : ℕ) : ℤ :=
  code.codeOffset + 16 + units * 2 + (units % 2 : ℕ) * 2

/-- A try is what an entry of the table says, with an encoded handler list. -/
def TryAt (code : DexCode) (handlers : List (ℕ × List Handler)) (entry : ℤ) (t : Try) : Prop :=
  ∃ count relative, u32 code entry = .ok t.start ∧ u16 code (entry + 4) = .ok count ∧
    t.endExclusive = t.start + count ∧
    u16 code (entry + 6) = .ok relative ∧ (relative, t.handlers) ∈ handlers

/-- What is published of a code item is well formed. -/
structure WellFormed (code : DexCode) (r : Decoded) : Prop where
  units : code.getUnitsCount = .ok r.units ∧ 0 < r.units ∧ r.units ≤ 4096
  records : ∃ records, Tiles 0 r.units records ∧
    records.filterMap Record.instruction? = r.scan.instructions ∧
    records.filterMap Record.payload? = r.scan.payloads ∧ records.length ≤ 1024
  branches : ∀ i ∈ r.scan.instructions, ∀ opcode, OpcodeAt code i.offset opcode →
    isBranch opcode = true →
    ∃ b ∈ r.scan.branches, b.offset = i.offset
  branch : ∀ b ∈ r.scan.branches, ∃ opcode, OpcodeAt code b.offset opcode ∧ isBranch opcode = true ∧
    r.scan.Executable b.target ∧
    (0x32 ≤ opcode → r.scan.Executable b.nextOffset) ∧
      ∃ i ∈ r.scan.instructions, i.offset = b.offset ∧ b.nextOffset = i.offset + i.length
  switches : ∀ i ∈ r.scan.instructions, (OpcodeAt code i.offset 0x2b →
    ∃ w ∈ r.scan.switches, w.offset = i.offset ∧ w.opcode = .packedSwitch) ∧
    (OpcodeAt code i.offset 0x2c → ∃ w ∈ r.scan.switches, w.offset = i.offset ∧
      w.opcode = .sparseSwitch)
  switch : ∀ w ∈ r.scan.switches, r.scan.SwitchWellFormed w
  arrays : ∀ i ∈ r.scan.instructions, OpcodeAt code i.offset 0x26 →
    ∃ a ∈ r.scan.arrayData, a.offset = i.offset
  array : ∀ a ∈ r.scan.arrayData, r.scan.HasPayload a.payloadOffset .ARRAY_DATA
  tries : r.scan.tries.length ≤ 256 ∧ r.scan.tries.Pairwise (·.endExclusive ≤ ·.start)
  try_ : ∀ t ∈ r.scan.tries, t.endExclusive ≤ r.units ∧ r.scan.TryWellFormed r.units t
  /-- There are as many as the header says, and they are those of the table. -/
  table : u16 code (code.codeOffset + 6) = .ok r.scan.tries.length ∧
    ∀ (i : ℕ) t, r.scan.tries[i]? = some t → TryAt code r.handlers (tryTable code r.units + 8 * i) t
  /-- The cases in payloads, the cases of switches, the encoded handler lists, the handlers in them
  and the handlers of tries. -/
  caps : r.decoder.cases ≤ 1024 ∧ (r.scan.switches.map (·.cases.length)).sum ≤ 1024 ∧
    r.handlers.length ≤ 1024 ∧
    (r.handlers.map (·.2.length)).sum ≤ 1024 ∧ (r.scan.tries.map (·.handlers.length)).sum ≤ 1024

/-- Nothing but why. -/
def Scan.Unpublished (s : Scan) : Prop := s = .empty s.availability s.reason

end JadxControlFlowAdapter

end Libjadx
