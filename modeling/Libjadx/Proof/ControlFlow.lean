import Libjadx.Lib.Locked
import Libjadx.Spec.ControlFlow

/-!
# Decoding the records of a code item

* `accept_cases`: what one record does to the decoder.
* `Sound`: what holds of the decoder after any of them (`visit_sound`).
* `Sound.executable`: an instruction starts in no payload.
-/

namespace Libjadx

open ControlFlowFacts

namespace DexCode

theorem require_eq_ok {b : Bool} {u : Unit} : require b = .ok u ↔ b = true := by
  cases b with
  | true => exact ⟨fun _ => rfl, fun _ => rfl⟩
  | false => exact ⟨(nomatch ·), (nomatch ·)⟩

theorem limit_eq_ok {count max : ℕ} {u : Unit} : limit count max = .ok u ↔ count ≤ max := by
  rw [limit]
  split
  · exact ⟨(nomatch ·), fun _ => by omega⟩
  · exact ⟨fun _ => by omega, fun _ => rfl⟩

/-- A short is its two bytes, the lower one first. -/
theorem le16_eq_ok {bytes : List UInt8} {i n : ℕ} : le16 bytes i = .ok n ↔
    ∃ a b, bytes[i]? = some a ∧ bytes[i + 1]? = some b ∧ n = a.toNat + 0x100 * b.toNat := by
  rw [le16]
  rcases bytes[i]? with - | a
  · exact ⟨(nomatch ·), fun h => nomatch h⟩
  rcases bytes[i + 1]? with - | b
  · exact ⟨(nomatch ·), fun ⟨_, _, _, h, _⟩ => nomatch h⟩
  constructor
  · intro h
    exact ⟨a, b, rfl, rfl, (Except.ok.inj h).symm⟩
  · rintro ⟨a', b', ha, hb, rfl⟩
    rw [Option.some.inj ha, Option.some.inj hb]

/-- Code units are read where the file has them. -/
theorem getByteCode_eq_ok {code : DexCode} {start : ℤ} {units : ℕ} {bytes : List UInt8} :
    code.getByteCode start units = .ok bytes ↔
      0 ≤ start ∧ start + 2 * units ≤ code.file.length ∧ bytes = (code.file.drop start.toNat).take
        (2 * units) := by
  rw [getByteCode]
  split
  · rename_i h
    constructor
    · intro heq
      exact ⟨h.1, h.2, (Except.ok.inj heq).symm⟩
    · rintro ⟨-, -, rfl⟩
      rfl
  · rename_i h
    exact ⟨(nomatch ·), fun ⟨h₁, h₂, _⟩ => absurd ⟨h₁, h₂⟩ h⟩

/-- The first unit of a record is in its bytes. -/
theorem le16_insnByteCode {code : DexCode} {offset units op : ℕ} {bytes : List UInt8}
    (hpos : 0 < units)
    (hbytes : code.insnByteCode offset units = .ok bytes)
    (hop : code.getRawOpcodeUnit offset = .ok op) : le16 bytes 0 = .ok op := by
  obtain ⟨unit, hunit, hop⟩ := bind_eq_ok.1 hop
  obtain ⟨-, -, rfl⟩ := getByteCode_eq_ok.1 hunit
  obtain ⟨-, -, rfl⟩ := getByteCode_eq_ok.1 hbytes
  obtain ⟨a, b, ha, hb, rfl⟩ := le16_eq_ok.1 hop
  rw [List.getElem?_take_of_lt (by decide)] at ha hb
  exact le16_eq_ok.2 ⟨a, b, by rw [List.getElem?_take_of_lt (by omega), ha],
    by rw [List.getElem?_take_of_lt (by omega), hb], rfl⟩

end DexCode

namespace JadxControlFlowAdapter

open DexCode

variable {code : DexCode} {units offset : ℕ} {d e : Decoder}

/-- A target is checked against the starts of instructions. -/
theorem executable_eq_ok {u : Unit} : executable d offset = .ok u ↔ offset ∈ d.starts := by
  rw [executable, require_eq_ok, List.contains_iff_mem]

/-! ## One record -/

/-- The unit that a payload starts with. -/
def ident : PayloadKind → ℕ
  | .PACKED_SWITCH => 0x100
  | .SPARSE_SWITCH => 0x200
  | .ARRAY_DATA => 0x300

/-- The cases that a payload of a kind declares. -/
def declared (kind : PayloadKind) (count : ℕ) : ℕ := if kind = .ARRAY_DATA then 0 else count

/-- What is known of a payload whose extent was computed. -/
theorem payloadExtent_eq_ok {cases op count : ℕ} {header : List UInt8} {r : ℕ × PayloadKind × ℕ}
    (h : payloadExtent cases op count header = .ok r) :
    op = ident r.2.1 ∧ r.1 = cases + declared r.2.1 count ∧ (r.2.1 ≠ .ARRAY_DATA → r.1 ≤ 1024) ∧
      2 ≤ r.2.2 ∧
      match r.2.1 with
      | .PACKED_SWITCH => r.2.2 = 4 + count * 2
      | .SPARSE_SWITCH => r.2.2 = 2 + count * 4
      | .ARRAY_DATA => count ∈ [1, 2, 4, 8] ∧ ∃ size, le32 header 4 = .ok size ∧
          r.2.2 = 4 + (size * count + 1) / 2 := by
  rw [payloadExtent] at h
  split at h
  · rename_i hop
    obtain ⟨u, hu, h⟩ := bind_eq_ok.1 h
    obtain rfl := Except.ok.inj h
    have hle := limit_eq_ok.1 hu
    rcases hop with rfl | rfl
    · simp [ident, declared, hle]
      omega
    · simp [ident, declared, hle]
  · obtain ⟨u, hu, h⟩ := bind_eq_ok.1 h
    obtain ⟨size, hsize, h⟩ := bind_eq_ok.1 h
    obtain rfl := Except.ok.inj h
    have hop := require_eq_ok.1 hu
    simp only [Bool.and_eq_true, Bool.or_eq_true, beq_iff_eq] at hop
    refine ⟨hop.1, by simp [declared], fun hne => absurd rfl hne, Nat.le_add_right_of_le (by decide),
      ?_, size, hsize, rfl⟩
    simpa [or_assoc] using hop.2

/-- The units of a payload's header. -/
def headerUnits (op : ℕ) : ℕ := if op = 0x300 then 4 else if op = 0x100 then 4 else 2

/-- What is known of a payload that was accepted. -/
theorem acceptPayload_eq_ok {op : ℕ} (h : acceptPayload code units d op = .ok e) :
    ∃ count cases kind extent header bytes,
    d.next % 2 = 0 ∧ headerUnits op ≤ units - d.next ∧ code.insnByteCode d.next
      (headerUnits op) = .ok header ∧
      le16 header 2 = .ok count ∧ payloadExtent d.cases op count header = .ok
        (cases, kind, extent) ∧ extent ≤ units - d.next ∧
        code.insnByteCode d.next extent = .ok bytes ∧
          e = { d with next := d.next + extent, cases := cases, payloads := d.payloads ++
                       [⟨d.next, extent, kind⟩],
                       payloadBytes := d.payloadBytes ++ [(d.next, bytes)] } := by
  rw [acceptPayload] at h
  obtain ⟨_, heven, h⟩ := bind_eq_ok.1 h
  obtain ⟨_, hheader, h⟩ := bind_eq_ok.1 h
  obtain ⟨header, hread, h⟩ := bind_eq_ok.1 h
  obtain ⟨count, hcount, h⟩ := bind_eq_ok.1 h
  obtain ⟨⟨cases, kind, extent⟩, hextent, h⟩ := bind_eq_ok.1 h
  obtain ⟨_, hfits, h⟩ := bind_eq_ok.1 h
  obtain ⟨bytes, hbytes, h⟩ := bind_eq_ok.1 h
  exact ⟨count, cases, kind, extent, header,
    bytes, by simpa using require_eq_ok.1 heven, of_decide_eq_true (require_eq_ok.1 hheader),
    hread, hcount, hextent, of_decide_eq_true (require_eq_ok.1 hfits), hbytes,
      (Except.ok.inj h).symm⟩

/-- The decoder behind an instruction, but for its branch or its payload. -/
def Decoder.push (d : Decoder) (info : InsnInfo) : Decoder :=
  { d with next := d.next + info.length.toNat, instructions := d.instructions ++
           [⟨d.next, info.length.toNat, info.mnemonic⟩],
           starts := d.starts ++ [d.next] }

/-- What is known of an instruction that was accepted. -/
theorem acceptInstruction_eq_ok {op : ℕ} {info : InsnInfo}
    (h : acceptInstruction code units d op info = .ok e) : ∃ bytes,
    0 < info.length ∧ info.length.toNat ≤ units - d.next ∧
      code.insnByteCode d.next info.length.toNat = .ok bytes ∧
      (op % 0x100 = 0 → op = 0) ∧
        ((isBranch (op % 0x100) = true ∧ ∃ delta target, branchDelta op bytes = .ok delta ∧
            destination units d.next delta = .ok target ∧ e = { d.push info with
              branches := d.branches ++ [⟨d.next, info.mnemonic, target, d.next + info.length.toNat⟩] }) ∨
          (isBranch (op % 0x100) = false ∧ usesPayload (op % 0x100) = true ∧
            ∃ delta target, le32 bytes 2 = .ok delta ∧
            destination units d.next (toInt delta) = .ok target ∧
              e = { d.push info with payloadUses := d.payloadUses ++ [⟨d.next, op % 0x100, target⟩] }) ∨
          (isBranch (op % 0x100) = false ∧ usesPayload (op % 0x100) = false ∧
            e = d.push info)) := by
  rw [acceptInstruction] at h
  obtain ⟨_, hlength, h⟩ := bind_eq_ok.1 h
  obtain ⟨bytes, hbytes, h⟩ := bind_eq_ok.1 h
  obtain ⟨_, hnop, h⟩ := bind_eq_ok.1 h
  have hrange := require_eq_ok.1 hlength
  rw [Bool.and_eq_true, decide_eq_true_eq, decide_eq_true_eq] at hrange
  have hzero := require_eq_ok.1 hnop
  rw [Bool.or_eq_true, bne_iff_ne, beq_iff_eq] at hzero
  refine ⟨bytes, hrange.1, by omega, hbytes, fun heq => hzero.resolve_left (absurd heq), ?_⟩
  split at h
  · rename_i hbranch
    obtain ⟨delta, hdelta, h⟩ := bind_eq_ok.1 h
    obtain ⟨target, htarget, h⟩ := bind_eq_ok.1 h
    exact .inl ⟨hbranch, delta, target, hdelta, htarget, (Except.ok.inj h).symm⟩
  rename_i hbranch
  rw [Bool.not_eq_true] at hbranch
  split at h
  · rename_i huses
    obtain ⟨delta, hdelta, h⟩ := bind_eq_ok.1 h
    obtain ⟨target, htarget, h⟩ := bind_eq_ok.1 h
    exact .inr (.inl ⟨hbranch, huses, delta, target, hdelta, htarget, (Except.ok.inj h).symm⟩)
  · rename_i huses
    rw [Bool.not_eq_true] at huses
    exact .inr (.inr ⟨hbranch, huses, (Except.ok.inj h).symm⟩)

/-- **What one record does.** -/
theorem accept_cases (h : accept code units offset d = .ok e) :
    offset = d.next ∧ d.records + 1 ≤ 1024 ∧
    (d.next = 0 → ∃ tries, u16 code (code.codeOffset + 6) = .ok tries ∧ tries ≤ 256) ∧ ∃ op info,
      code.getRawOpcodeUnit d.next = .ok op ∧ code.insnInfo op = some info ∧
        ((info.length < 0 ∧ acceptPayload code units { d with records := d.records + 1 } op = .ok e) ∨
          acceptInstruction code units { d with records := d.records + 1 } op info = .ok e) := by
  rw [accept] at h
  obtain ⟨op, hop, h⟩ := bind_eq_ok.1 h
  obtain ⟨_, htries, h⟩ := bind_eq_ok.1 h
  cases hinfo : code.insnInfo op with
  | none =>
    rw [hinfo] at h
    cases h
  | some info =>
    rw [hinfo] at h
    dsimp only at h
    obtain ⟨_, hnext, hlater⟩ := bind_eq_ok.1 h
    obtain ⟨_, hrecords, hlast⟩ := bind_eq_ok.1 hlater
    obtain rfl : offset = d.next := by simpa using require_eq_ok.1 hnext
    refine ⟨rfl, limit_eq_ok.1 hrecords, fun hzero => ?_, op, info, hop, hinfo, ?_⟩
    · rw [checkTries, if_pos hzero] at htries
      obtain ⟨tries, hread, hlimit⟩ := bind_eq_ok.1 htries
      exact ⟨tries, hread, limit_eq_ok.1 hlimit⟩
    · split at hlast
      · rename_i hnegative
        exact .inl ⟨hnegative, hlast⟩
      · exact .inr hlast

/-! ## The decoder after any records -/

/-- A record behind the others keeps them gapless. -/
theorem tiles_append {a b c : ℕ} {records : List Record} (h : Tiles a b records) (r : Record)
    (hr : r.offset = b) (hpos : 0 < r.length)
    (hc : c = b + r.length) : Tiles a c (records ++ [r]) := by
  subst hc
  induction records generalizing a with
  | nil =>
    obtain rfl : a = b := h
    exact ⟨hr, hpos, rfl⟩
  | cons s records ih => exact ⟨h.1, h.2.1, ih h.2.2⟩

/-- The bytes of a payload are in the file, and start with what its kind says. -/
def Holds (code : DexCode) (entry : ℕ × List UInt8) (p : Payload) : Prop :=
  entry.1 = p.offset ∧ code.insnByteCode p.offset p.length = .ok entry.2 ∧
    le16 entry.2 0 = .ok (ident p.kind)

/-- What holds between any two records. -/
structure Sound (code : DexCode) (units : ℕ) (d : Decoder) : Prop where
  le : d.next ≤ units
  records_le : d.records ≤ 1024
  cases_le : d.cases ≤ 1024
  tiles : ∃ records, Tiles 0 d.next records ∧
    records.filterMap Record.instruction? = d.instructions ∧
    records.filterMap Record.payload? = d.payloads ∧ records.length = d.records
  starts : d.starts = d.instructions.map Instruction.offset
  data : List.Forall₂ (Holds code) d.payloadBytes d.payloads
  instruction : ∀ i ∈ d.instructions, ∃ op, code.getRawOpcodeUnit i.offset = .ok op ∧
    (isBranch (op % 0x100) = true → ∃ b ∈ d.branches, b.offset = i.offset) ∧
      (usesPayload (op % 0x100) = true → ∃ u ∈ d.payloadUses, u.offset = i.offset ∧
        u.opcode = op % 0x100)
  branch : ∀ b ∈ d.branches, ∃ op info, code.getRawOpcodeUnit b.offset = .ok op ∧
    code.insnInfo op = some info ∧
    b.opcode = info.mnemonic ∧ isBranch (op % 0x100) = true ∧
      ∃ i ∈ d.instructions, i.offset = b.offset ∧ b.nextOffset = i.offset + i.length

/-- Before the walk there is nothing to check. -/
theorem sound_start : Sound code units {} where
  le := Nat.zero_le _
  records_le := by decide
  cases_le := by decide
  tiles := ⟨[], rfl, rfl, rfl, rfl⟩
  starts := rfl
  data := .nil
  instruction _ h := absurd h List.not_mem_nil
  branch _ h := absurd h List.not_mem_nil

/-- A payload keeps what is known of the records. -/
theorem Sound.payload (h : Sound code units d) (hrecords : d.records + 1 ≤ 1024) {op : ℕ}
    (hop : code.getRawOpcodeUnit d.next = .ok op)
    (haccept : acceptPayload code units { d with records := d.records + 1 } op = .ok e) :
    Sound code units e ∧ d.next < e.next := by
  obtain ⟨count, cases, kind, extent, header, bytes, -, -, -, -, hextent, hfits, hbytes, rfl⟩ :=
    acceptPayload_eq_ok haccept
  obtain ⟨hkind, hcases, hlimit, hpos, -⟩ := payloadExtent_eq_ok hextent
  obtain ⟨records, htiles, hinstructions, hpayloads, hlength⟩ := h.tiles
  have hle := h.le
  refine ⟨⟨?_, hrecords, ?_, ?_, h.starts, ?_, h.instruction, h.branch⟩, ?_⟩
  · dsimp only at hfits hpos ⊢
    omega
  · by_cases harray : kind = .ARRAY_DATA
    · subst harray
      have hsame : cases = d.cases := hcases
      exact hsame ▸ h.cases_le
    · exact hlimit harray
  · refine ⟨records ++ [.payload ⟨d.next, extent, kind⟩],
      tiles_append htiles (.payload ⟨d.next, extent, kind⟩) rfl
        (Nat.lt_of_lt_of_le Nat.zero_lt_two hpos) ?_, ?_, ?_, ?_⟩
    · rfl
    · rw [List.filterMap_append, hinstructions]
      exact List.append_nil _
    · rw [List.filterMap_append, hpayloads]
      rfl
    · rw [List.length_append, hlength]
      rfl
  · refine List.rel_append h.data (.cons ⟨rfl, hbytes, ?_⟩ .nil)
    rw [← hkind]
    exact le16_insnByteCode (Nat.lt_of_lt_of_le Nat.zero_lt_two hpos) hbytes hop
  · exact Nat.lt_add_of_pos_right (Nat.lt_of_lt_of_le Nat.zero_lt_two hpos)

/-- An instruction, whatever it jumps to or uses. -/
theorem Sound.push (h : Sound code units d) (hrecords : d.records + 1 ≤ 1024) {op : ℕ}
    (hop : code.getRawOpcodeUnit d.next = .ok op)
    {info : InsnInfo} (hinfo : code.insnInfo op = some info) (hpos : 0 < info.length)
    (hfits : info.length.toNat ≤ units - d.next)
    (branches : List Branch) (uses : List PayloadUse)
    (hbranch : ∀ b ∈ branches, isBranch (op % 0x100) = true ∧ b.offset = d.next ∧
      b.opcode = info.mnemonic ∧
      b.nextOffset = d.next + info.length.toNat)
    (hbranches : isBranch (op % 0x100) = true → branches ≠ [])
    (huse : ∀ u ∈ uses, u.offset = d.next ∧ u.opcode = op % 0x100)
    (huses : usesPayload (op % 0x100) = true → uses ≠ []) :
    Sound code units { { d with records := d.records + 1 }.push info with
      branches := d.branches ++ branches, payloadUses := d.payloadUses ++ uses } := by
  obtain ⟨records, htiles, hinstructions, hpayloads, hlength⟩ := h.tiles
  have hle := h.le
  have hpositive : 0 < info.length.toNat := by omega
  refine ⟨?_, hrecords, h.cases_le, ?_, ?_, h.data, ?_, ?_⟩
  · change d.next + info.length.toNat ≤ units
    omega
  · refine ⟨records ++ [.instruction ⟨d.next, info.length.toNat, info.mnemonic⟩],
      tiles_append htiles (.instruction ⟨d.next, info.length.toNat, info.mnemonic⟩) rfl hpositive
        ?_, ?_, ?_, ?_⟩
    · rfl
    · rw [List.filterMap_append, hinstructions]
      rfl
    · rw [List.filterMap_append, hpayloads]
      exact List.append_nil _
    · rw [List.length_append, hlength]
      rfl
  · change d.starts ++ [d.next] = (d.instructions ++
      [Instruction.mk d.next info.length.toNat info.mnemonic]).map Instruction.offset
    rw [h.starts, List.map_append]
    rfl
  · intro i hi
    obtain hold | hnew := List.mem_append.1 hi
    · obtain ⟨op', hop', hbranch', huse'⟩ := h.instruction i hold
      refine ⟨op', hop', fun hb => ?_, fun hu => ?_⟩
      · obtain ⟨b, hb, heq⟩ := hbranch' hb
        exact ⟨b, List.mem_append_left _ hb, heq⟩
      · obtain ⟨u, hu, heq⟩ := huse' hu
        exact ⟨u, List.mem_append_left _ hu, heq⟩
    · obtain rfl := List.mem_singleton.1 hnew
      refine ⟨op, hop, fun hb => ?_, fun hu => ?_⟩
      · obtain ⟨b, hmem⟩ := List.exists_mem_of_ne_nil _ (hbranches hb)
        exact ⟨b, List.mem_append_right _ hmem, (hbranch b hmem).2.1⟩
      · obtain ⟨u, hmem⟩ := List.exists_mem_of_ne_nil _ (huses hu)
        exact ⟨u, List.mem_append_right _ hmem, huse u hmem⟩
  · intro b hb
    obtain hold | hnew := List.mem_append.1 hb
    · obtain ⟨op', info', hop', hinfo', hname, hkind, i, hi, hoffset⟩ := h.branch b hold
      exact ⟨op', info', hop', hinfo', hname, hkind, i, List.mem_append_left _ hi, hoffset⟩
    · obtain ⟨hkind, hoffset, hname, hnext⟩ := hbranch b hnew
      exact ⟨op, info, hoffset ▸ hop, hinfo, hname, hkind, _, List.mem_append_right _
        (List.mem_singleton_self _), hoffset.symm, hnext⟩

/-- So does an instruction. -/
theorem Sound.instruction_step (h : Sound code units d) (hrecords : d.records + 1 ≤ 1024) {op : ℕ}
    (hop : code.getRawOpcodeUnit d.next = .ok op) {info : InsnInfo}
    (hinfo : code.insnInfo op = some info)
    (haccept : acceptInstruction code units { d with records := d.records + 1 } op info = .ok e) :
    Sound code units e ∧ e.next = d.next + info.length.toNat ∧ 0 < info.length.toNat := by
  obtain ⟨bytes, hpos, hfits, -, -, hcases⟩ := acceptInstruction_eq_ok haccept
  have hdisjoint : isBranch (op % 0x100) = true → usesPayload (op % 0x100) = true → False := by
    intro hb hu
    simp only [usesPayload, Bool.or_eq_true, beq_iff_eq] at hu
    rcases hu with (hu | hu) | hu <;> rw [hu] at hb <;> exact absurd hb (by decide)
  obtain ⟨hbranch, delta, target, -, -, rfl⟩ | ⟨hbranch, huses, delta, target, -, -, rfl⟩ |
    ⟨hbranch, huses, rfl⟩ := hcases
  · refine ⟨?_, rfl, by omega⟩
    have hsound := h.push hrecords hop hinfo hpos hfits
      [⟨d.next, info.mnemonic, target, d.next + info.length.toNat⟩] []
      (fun b hb => by obtain rfl := List.mem_singleton.1 hb; exact ⟨hbranch, rfl, rfl, rfl⟩)
      (fun _ => List.cons_ne_nil _ _) (fun u hu => absurd hu List.not_mem_nil) (fun hu =>
        (hdisjoint hbranch hu).elim)
    rw [List.append_nil] at hsound
    exact hsound
  · refine ⟨?_, rfl, by omega⟩
    have hsound := h.push hrecords hop hinfo hpos hfits [] [⟨d.next, op % 0x100, target⟩]
      (fun b hb => absurd hb List.not_mem_nil) (fun hb => (hdisjoint hb huses).elim)
      (fun u hu => by obtain rfl := List.mem_singleton.1 hu; exact ⟨rfl, rfl⟩) (fun _ =>
        List.cons_ne_nil _ _)
    rw [List.append_nil] at hsound
    exact hsound
  · refine ⟨?_, rfl, by omega⟩
    have hsound := h.push hrecords hop hinfo hpos hfits [] []
      (fun b hb => absurd hb List.not_mem_nil) (fun hb => by rw [hbranch] at hb; cases hb)
      (fun u hu => absurd hu List.not_mem_nil) (fun hu => by rw [huses] at hu; cases hu)
    rw [List.append_nil, List.append_nil] at hsound
    exact hsound

/-- One record. -/
theorem Sound.accept (h : Sound code units d) (haccept : accept code units offset d = .ok e) :
    Sound code units e ∧ d.next < e.next := by
  obtain ⟨-, hrecords, -, op, info, hop, hinfo, ⟨-, hpayload⟩ | hinstruction⟩ :=
    accept_cases haccept
  · exact h.payload hrecords hop hpayload
  · obtain ⟨hsound, hnext, hpos⟩ := h.instruction_step hrecords hop hinfo hinstruction
    exact ⟨hsound, by omega⟩

/-- **Any records.** -/
theorem visit_sound {rounds : ℕ} (h : Sound code units d)
    (hvisit : code.visitInstructions .malformed units (JadxControlFlowAdapter.accept code units)
      rounds offset d = .ok e) : Sound code units e := by
  induction rounds generalizing offset d with
  | zero => cases hvisit
  | succ rounds ih =>
    rw [visitInstructions] at hvisit
    split at hvisit
    · obtain ⟨d', haccept, hrest⟩ := bind_eq_ok.1 hvisit
      exact ih (h.accept haccept).1 hrest
    · obtain rfl := Except.ok.inj hvisit
      exact h

/-! ## Where instructions start -/

/-- No record is empty, -/
theorem Tiles.pos {a b : ℕ} {records : List Record} (h : Tiles a b records) :
    ∀ r ∈ records, 0 < r.length := by
  induction records generalizing a with
  | nil => exact List.forall_mem_nil _
  | cons s records ih => exact List.forall_mem_cons.2 ⟨h.2.1, ih h.2.2⟩

/-- and none is before the first. -/
theorem Tiles.ge {a b : ℕ} {records : List Record} (h : Tiles a b records) :
    ∀ r ∈ records, a ≤ r.offset := by
  induction records generalizing a with
  | nil => exact List.forall_mem_nil _
  | cons s records ih =>
    exact List.forall_mem_cons.2 ⟨h.1.ge, fun r hr => (Nat.le_add_right a s.length).trans (ih h.2.2 r hr)⟩

/-- Two records are one, or apart. -/
theorem Tiles.apart {a b : ℕ} {records : List Record} (h : Tiles a b records) {r s : Record}
    (hr : r ∈ records) (hs : s ∈ records)
    (hne : r ≠ s) : r.offset + r.length ≤ s.offset ∨ s.offset + s.length ≤ r.offset := by
  induction records generalizing a with
  | nil => exact absurd hr List.not_mem_nil
  | cons t records ih =>
    obtain rfl | hr' := List.mem_cons.1 hr <;> obtain rfl | hs' := List.mem_cons.1 hs
    · exact absurd rfl hne
    · exact .inl (h.1 ▸ h.2.2.ge s hs')
    · exact .inr (h.1 ▸ h.2.2.ge r hr')
    · exact ih h.2.2 hr' hs'

theorem mem_of_instruction {records : List Record} {i : Instruction}
    (h : i ∈ records.filterMap Record.instruction?) :
    .instruction i ∈ records := by
  obtain ⟨r, hr, heq⟩ := List.mem_filterMap.1 h
  cases r with
  | instruction j => exact Option.some.inj heq ▸ hr
  | payload p => cases heq

theorem mem_of_payload {records : List Record} {p : Payload}
    (h : p ∈ records.filterMap Record.payload?) : .payload p ∈ records := by
  obtain ⟨r, hr, heq⟩ := List.mem_filterMap.1 h
  cases r with
  | instruction j => cases heq
  | payload q => exact Option.some.inj heq ▸ hr

/-- **Where an instruction starts, no payload is.** -/
theorem Sound.executable (h : Sound code units d) {s : Scan}
    (hinstructions : s.instructions = d.instructions)
    (hpayloads : s.payloads = d.payloads) {n : ℕ} (hn : n ∈ d.starts) : s.Executable n := by
  obtain ⟨records, htiles, hi, hp, -⟩ := h.tiles
  rw [h.starts] at hn
  obtain ⟨i, hmem, rfl⟩ := List.mem_map.1 hn
  refine ⟨⟨i, hinstructions ▸ hmem, rfl⟩, fun p hpmem => ?_⟩
  have hr : Record.instruction i ∈ records := mem_of_instruction (hi ▸ hmem)
  have hs : Record.payload p ∈ records := mem_of_payload (hp ▸ hpayloads ▸ hpmem)
  have hpos : 0 < i.length := htiles.pos _ hr
  obtain hbefore | hafter := htiles.apart hr hs nofun
  · exact .inl (Nat.lt_of_lt_of_le (Nat.lt_add_of_pos_right hpos) hbefore)
  · exact .inr hafter

/-- The bytes that were kept of a payload. -/
theorem Sound.payload_of_data (h : Sound code units d) {entry : ℕ × List UInt8}
    (hentry : entry ∈ d.payloadBytes) :
    ∃ p ∈ d.payloads, Holds code entry p := by
  have hdata := h.data
  generalize d.payloadBytes = entries at hentry hdata
  generalize d.payloads = payloads at hdata
  induction hdata with
  | nil => exact absurd hentry List.not_mem_nil
  | cons hhead _ ih =>
    obtain rfl | htail := List.mem_cons.1 hentry
    · exact ⟨_, List.mem_cons_self, hhead⟩
    · obtain ⟨p, hp, hholds⟩ := ih htail
      exact ⟨p, List.mem_cons_of_mem _ hp, hholds⟩

end JadxControlFlowAdapter

end Libjadx
