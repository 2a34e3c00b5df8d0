import Libjadx.Proof.ControlFlowFacts
import Libjadx.Proof.Leb
import Libjadx.Spec.DexInventory

/-!
# The two decoders of dex code

* `accept_agrees`, `visit_agrees`: the inventory takes the records that the control-flow decoder
  takes.
* `handlerSizes_agrees`, `trySizes_agrees`: the same handler lists, and the same list for each try.
* `decoders_agree`: all of it.
-/

namespace Libjadx

open ControlFlowFacts

namespace DexCode

variable {code : DexCode}

/-! ## Bytes of the file -/

/-- What was read of the file stands in it. -/
theorem getElem?_getByteCode {start : ℤ} {n i : ℕ} {bytes : List UInt8} {b : UInt8}
    (h : code.getByteCode start n = .ok bytes)
    (hb : bytes[i]? = some b) : code.file[start.toNat + i]? = some b := by
  obtain ⟨-, -, rfl⟩ := getByteCode_eq_ok.1 h
  obtain ⟨hlt, -⟩ := List.getElem?_eq_some_iff.1 hb
  rw [List.length_take] at hlt
  rw [List.getElem?_take_of_lt (by omega), List.getElem?_drop] at hb
  exact hb

/-- So does a short, -/
theorem le16_file {start : ℤ} {n i v : ℕ} {bytes : List UInt8}
    (h : code.getByteCode start n = .ok bytes) (hv : le16 bytes i = .ok v) :
    le16 code.file (start.toNat + i) = .ok v := by
  obtain ⟨a, b, ha, hb, rfl⟩ := le16_eq_ok.1 hv
  exact le16_eq_ok.2 ⟨a, b, getElem?_getByteCode h ha, getElem?_getByteCode h hb, rfl⟩

/-- and so does an int. -/
theorem le32_file {start : ℤ} {n i v : ℕ} {bytes : List UInt8}
    (h : code.getByteCode start n = .ok bytes) (hv : le32 bytes i = .ok v) :
    le32 code.file (start.toNat + i) = .ok v := by
  obtain ⟨low, hlow, h₁⟩ := bind_eq_ok.1 hv
  obtain ⟨high, hhigh, h₂⟩ := bind_eq_ok.1 h₁
  rw [le32, le16_file h hlow, Nat.add_assoc, le16_file h hhigh]
  exact h₂

end DexCode

namespace JadxControlFlowAdapter

open DexCode

variable {code : DexCode} {units offset : ℕ} {d e : Decoder}

/-- What was read was in the file, and of whole units. -/
theorem bytes_eq_ok {start : ℤ} {n : ℕ} {read : List UInt8} (h : bytes code start n = .ok read) :
    0 ≤ start ∧ start + n ≤ MAX_VALUE ∧ n % 2 = 0 ∧ code.getByteCode start (n / 2) = .ok read := by
  rw [bytes] at h
  obtain ⟨_, hrange, hread⟩ := bind_eq_ok.1 h
  have hvalid := require_eq_ok.1 hrange
  simp only [Bool.and_eq_true, decide_eq_true_eq, beq_iff_eq] at hvalid
  exact ⟨hvalid.1.1, hvalid.2, hvalid.1.2, hread⟩

theorem u16_file {start : ℤ} {v : ℕ} (h : u16 code start = .ok v) :
    0 ≤ start ∧ le16 code.file start.toNat = .ok v := by
  rw [u16] at h
  obtain ⟨read, hread, hv⟩ := bind_eq_ok.1 h
  obtain ⟨hpos, -, -, hget⟩ := bytes_eq_ok hread
  exact ⟨hpos, le16_file hget hv⟩

/-- The LEB128 that the adapter reads is that of the other decoder. -/
theorem lebNext_eq_ok {signed : Bool} {pos : ℕ} {r : ℤ × ℕ} (h : lebNext code signed pos = .ok r) :
    leb code signed pos = some r := by
  rw [lebNext] at h
  generalize leb code signed pos = o at h ⊢
  cases o with
  | none => cases h
  | some r' => exact congrArg some (Except.ok.inj h)

/-- What the one reader reads, the other does. -/
theorem leb_file (hsize : code.file.length ≤ MAX_VALUE) {signed : Bool} {pos : ℕ} {r : ℤ × ℕ}
    (h : leb code signed pos = some r) :
    OwnedDexAnalysis.leb code.file signed pos = some r := by
  obtain ⟨l, hl, hholds, hnext⟩ := lebIn_eq_some_iff.1 h
  have hne : l ≠ [] := by
    rintro rfl
    exact hl.terminated
  exact OwnedDexAnalysis.leb_eq_some_iff.2 ⟨l, hl, ((holds_iff hsize hne).1 hholds).1, hnext⟩

/-! ## What a record counts -/

/-- A record counts one, and ends within the file. -/
theorem accept_counts (h : accept code units offset d = .ok e) :
    e.records = d.records + 1 ∧ d.cases ≤ e.cases ∧ code.fileOffset e.next ≤ code.file.length := by
  have hoffset : ∀ n : ℕ, code.fileOffset (d.next + n) = code.fileOffset d.next + 2 * n := by
    intro n
    simp only [fileOffset, Nat.cast_add]
    ring
  obtain ⟨-, -, -, op, info, -, -, ⟨-, hpayload⟩ | hinstruction⟩ := accept_cases h
  · obtain ⟨count, cases, kind, extent, header, bytes, -, -, -, -, hextent, -, hbytes, rfl⟩ :=
      acceptPayload_eq_ok hpayload
    obtain ⟨-, hcases, -⟩ := payloadExtent_eq_ok hextent
    obtain ⟨-, hend, -⟩ := getByteCode_eq_ok.1 hbytes
    exact ⟨rfl, (Nat.le_add_right d.cases _).trans hcases.ge, (hoffset extent).trans_le hend⟩
  · obtain ⟨bytes, -, -, hbytes, -, hcases⟩ := acceptInstruction_eq_ok hinstruction
    obtain ⟨-, hend, -⟩ := getByteCode_eq_ok.1 hbytes
    have hfits := (hoffset info.length.toNat).trans_le hend
    obtain ⟨-, delta, target, -, -, rfl⟩ | ⟨-, -, delta, target, -, -, rfl⟩ | ⟨-, -, rfl⟩ :=
      hcases <;>
      exact ⟨rfl, Nat.le_refl _, hfits⟩

/-- **So do all records of the walk.** -/
theorem visit_counts {rounds : ℕ}
    (h : code.visitInstructions .malformed units (accept code units) rounds offset d = .ok e) :
    d.records ≤ e.records ∧ d.cases ≤ e.cases ∧
      (d.next < e.next → code.fileOffset e.next ≤ code.file.length) := by
  induction rounds generalizing offset d with
  | zero => cases h
  | succ rounds ih =>
    rw [visitInstructions] at h
    split at h
    · obtain ⟨d', haccept, hrest⟩ := bind_eq_ok.1 h
      obtain ⟨hrecords, hcases, hfits⟩ := accept_counts haccept
      obtain ⟨hrecords', hcases', hfits'⟩ := ih hrest
      refine ⟨by omega, hcases.trans hcases', fun _ => ?_⟩
      by_cases hmore : d'.next < e.next
      · exact hfits' hmore
      · refine le_trans ?_ hfits
        simp only [fileOffset]
        omega
    · obtain rfl := Except.ok.inj h
      exact ⟨Nat.le_refl _, Nat.le_refl _, fun hlt => absurd hlt (Nat.lt_irrefl _)⟩

end JadxControlFlowAdapter

namespace OwnedDexAnalysis

open DexCode

variable {code : DexCode} {units offset : ℕ} {interrupted : ℕ → Bool} {used₀ used : Quota → ℕ}
    {d e : JadxControlFlowAdapter.Decoder} {w : Walk}

/-! ## Counting -/

/-- Within the limit a count is added. -/
theorem add_eq_ok {key : Quota} {count : ℕ} (h : used key + count ≤ LIMITS key) :
    add used key count = .ok fun k => if k = key then used key + count else used k :=
  if_neg (Nat.not_lt.2 h)

theorem getShort_eq_ok {i n : ℕ} (h : le16 code.file i = .ok n) : getShort code.file i = .ok n := by
  rw [getShort, h]

theorem getInt_eq_ok {i n : ℕ} (h : le32 code.file i = .ok n) : getInt code.file i = .ok n := by
  rw [getInt, h]

/-! ## Records -/

/-- The walk has what the decoder has, and has counted it. -/
structure Follows (used₀ : Quota → ℕ) (d : JadxControlFlowAdapter.Decoder) (w : Walk) : Prop where
  next : w.next = d.next
  records : w.used .RECORDS = used₀ .RECORDS + d.records
  cases : w.used .CASES = used₀ .CASES + d.cases
  others : ∀ k, k ≠ .RECORDS → k ≠ .CASES → w.used k = used₀ k
  instructions : w.instructions = d.instructions.map fun i => (i.offset, i.length)
  payloads : w.payloads = d.payloads.map fun p => (p.offset, p.length)

/-- The identity of a payload says how long its header is. -/
theorem ident_of_headerUnits {kind : PayloadKind} :
    (if JadxControlFlowAdapter.ident kind = 0x200 then 2 else 4) =
    JadxControlFlowAdapter.headerUnits (JadxControlFlowAdapter.ident kind) := by
  cases kind <;> rfl

/-- A payload has the length, and the cases, that the decoder finds. -/
theorem extent_payload (used : Quota → ℕ) (hskip : code.SkipsRecords) {op : ℕ} {info : InsnInfo}
    (hop : code.getRawOpcodeUnit w.next = .ok op)
    (hinfo : code.insnInfo op = some info) (hnegative : info.length < 0) (heven : w.next % 2 = 0)
    {count cases cases' n : ℕ}
    {kind : PayloadKind} {header : List UInt8}
    (hheader : JadxControlFlowAdapter.headerUnits op ≤ units - w.next)
    (hread : code.insnByteCode w.next (JadxControlFlowAdapter.headerUnits op) = .ok header)
    (hcount : le16 header 2 = .ok count)
    (hextent : JadxControlFlowAdapter.payloadExtent cases op count header = .ok (cases', kind, n))
    (hfits : used .CASES + JadxControlFlowAdapter.declared kind count ≤ LIMITS .CASES) :
    ∃ used', extent code units w used op info = .ok (used', n) ∧ code.skipLength w.next = n ∧
      used' .CASES = used .CASES + JadxControlFlowAdapter.declared kind count ∧ ∀ k, k ≠ .CASES →
        used' k = used k := by
  obtain ⟨hkind, -, -, -, hlength⟩ := JadxControlFlowAdapter.payloadExtent_eq_ok hextent
  dsimp only at hkind hlength
  subst hkind
  have hsize := le16_file hread hcount
  obtain ⟨hpacked, hsparse, harray⟩ := hskip.payload w.next _ info count hop hinfo hnegative hsize
  have hfirst : ¬(w.next % 2 ≠ 0 ∨
      units - w.next < if JadxControlFlowAdapter.ident kind = 0x200 then 2 else 4) := by
    rw [ident_of_headerUnits]
    omega
  rw [extent, if_pos hnegative, if_neg hfirst]
  -- the three kinds of payloads, each with its own length
  cases kind with
  | PACKED_SWITCH =>
    obtain rfl : n = 4 + count * 2 := hlength
    exact ⟨_, bind_eq_ok.2 ⟨count, getShort_eq_ok hsize, (if_pos (.inl rfl)).trans
      (bind_eq_ok.2 ⟨_, add_eq_ok hfits, rfl⟩)⟩, hpacked rfl,
      rfl, fun k hk => if_neg hk⟩
  | SPARSE_SWITCH =>
    obtain rfl : n = 2 + count * 4 := hlength
    exact ⟨_, bind_eq_ok.2 ⟨count, getShort_eq_ok hsize, (if_pos (.inr rfl)).trans
      (bind_eq_ok.2 ⟨_, add_eq_ok hfits, rfl⟩)⟩, hsparse rfl,
      rfl, fun k hk => if_neg hk⟩
  | ARRAY_DATA =>
    obtain ⟨hcounts, size, hvalue, hn⟩ := hlength
    obtain rfl : n = 4 + (size * count + 1) / 2 := hn
    have hvalue' := le32_file hread hvalue
    exact ⟨used, bind_eq_ok.2 ⟨count, getShort_eq_ok hsize, (if_neg (by decide)).trans
      ((if_pos ⟨rfl, hcounts⟩).trans
      (bind_eq_ok.2 ⟨size, getInt_eq_ok hvalue', rfl⟩))⟩, harray rfl size hvalue', rfl,
        fun _ _ => rfl⟩

/-- **The inventory takes what the decoder takes**, one record. -/
theorem accept_agrees (hskip : code.SkipsRecords) (hcalm : ∀ n, interrupted n = false)
    (h : JadxControlFlowAdapter.accept code units offset d = .ok e) (hfollows : Follows used₀ d w)
    (hrecords : used₀ .RECORDS + e.records ≤ LIMITS .RECORDS) (hcases : used₀ .CASES + e.cases ≤ LIMITS .CASES) :
    ∃ w', accept code units interrupted offset w = .ok w' ∧ Follows used₀ e w' := by
  obtain ⟨rfl, -, -, op, info, hop, hinfo, hstep⟩ := JadxControlFlowAdapter.accept_cases h
  obtain ⟨hcounted, -, -⟩ := JadxControlFlowAdapter.accept_counts h
  have hadd : add w.used .RECORDS 1 = .ok fun k => if k = Quota.RECORDS then w.used .RECORDS + 1
      else w.used k :=
    add_eq_ok (by rw [hfollows.records]; omega)
  -- What is left of `accept` is the length of the record, its limits and the walk behind it.
  have hrest : ∀ used' n (w' : Walk),
      extent code units w (fun k => if k = Quota.RECORDS then w.used .RECORDS + 1 else w.used k) op info =
        .ok (used', (n : ℕ)) → 0 < n → n ≤ units - d.next → code.skipLength d.next = n →
      w' = (if info.length < 0 then
          { w with next := w.next + n, used := used', payloads := w.payloads ++ [(d.next, n)] }
        else { w with next := w.next + n, used := used', instructions := w.instructions ++
          [(d.next, n)] }) →
      accept code units interrupted d.next w = .ok w' := by
    intro used' n w' hextent hpos hfits hskips hw
    have hnext := hfollows.next
    have hlimits : ¬((n : ℤ) ≤ 0 ∨ (units : ℤ) - w.next < n) := by omega
    have hsame : ¬((code.skipLength d.next : ℤ) ≠ n) := by omega
    rw [accept, hcalm, if_neg Bool.false_ne_true]
    refine bind_eq_ok.2 ⟨_, hadd, bind_eq_ok.2 ⟨op, by rw [hop]; rfl, ?_⟩⟩
    rw [hinfo]
    dsimp only
    rw [if_neg (not_not.2 hnext.symm)]
    refine bind_eq_ok.2 ⟨_, hextent, ?_⟩
    dsimp only
    rw [if_neg hlimits, if_neg hsame, hw]
    split <;> rfl
  have hnext := hfollows.next
  -- a record is a payload or an instruction, to both
  obtain ⟨hnegative, hpayload⟩ | hinstruction := hstep
  · obtain ⟨count, cases, kind, n, header, bytes, heven, hheader, hread, hcount, hextent,
        hfits, -, rfl⟩ :=
      JadxControlFlowAdapter.acceptPayload_eq_ok hpayload
    obtain ⟨-, hdeclared, -, hpos, -⟩ := JadxControlFlowAdapter.payloadExtent_eq_ok hextent
    dsimp only at heven hheader hread hextent hfits hpos
    have hlimit : used₀ .CASES + cases ≤ LIMITS .CASES := hcases
    have hsum : cases = d.cases + JadxControlFlowAdapter.declared kind count := hdeclared
    have hwcases := hfollows.cases
    rw [← hnext] at hop heven hheader hread
    obtain ⟨used', htaken, hskips, hused, hothers⟩ := extent_payload
      (fun k => if k = Quota.RECORDS then w.used .RECORDS + 1 else w.used k) hskip hop hinfo
        hnegative heven hheader hread hcount
        hextent (show w.used .CASES + _ ≤ _ by omega)
    refine ⟨_, hrest used' n _ htaken (by omega) hfits (hnext ▸ hskips) rfl, ?_⟩
    rw [if_pos hnegative]
    refine ⟨congrArg (· + n) hnext, ?_, ?_, fun k hk hk' => ?_, hfollows.instructions, ?_⟩
    · exact (hothers .RECORDS (by decide)).trans (congrArg Nat.succ hfollows.records)
    · exact hused.trans (show w.used .CASES + _ = used₀ .CASES + cases by omega)
    · exact (hothers k hk').trans ((if_neg hk).trans (hfollows.others k hk hk'))
    · rw [List.map_append, ← hfollows.payloads]
      rfl
  · obtain ⟨bytes, hpos, hfits, -, hnop, hbranches⟩ :=
      JadxControlFlowAdapter.acceptInstruction_eq_ok hinstruction
    dsimp only at hfits
    have hnonneg : ¬info.length < 0 := by omega
    have hlength : info.length = (info.length.toNat : ℤ) := by omega
    have htaken : extent code units w (fun k => if k = Quota.RECORDS then w.used .RECORDS + 1
        else w.used k) op info =
        .ok (fun k => if k = Quota.RECORDS then w.used .RECORDS + 1 else w.used k,
            (info.length.toNat : ℤ)) := by
      rw [extent, if_neg hnonneg, if_neg (fun h => h.2 (hnop h.1)), ← hlength]
      rfl
    refine ⟨_, hrest _ info.length.toNat _ htaken (by omega) hfits
      (hskip.instruction d.next op info hop hinfo hpos.le) rfl, ?_⟩
    rw [if_neg hnonneg]
    -- Branches and uses of payloads are nothing to the inventory.
    have hpush : ∀ e' : JadxControlFlowAdapter.Decoder, e'.next = d.next + info.length.toNat →
        e'.records = d.records + 1 →
        e'.cases = d.cases → e'.instructions = d.instructions ++
          [⟨d.next, info.length.toNat, info.mnemonic⟩] → e'.payloads = d.payloads →
        Follows used₀ e' { w with
          next := w.next + info.length.toNat
          used := fun k => if k = Quota.RECORDS then w.used .RECORDS + 1 else w.used k
          instructions := w.instructions ++ [(d.next, info.length.toNat)] } := by
      intro e' hnext' hrecords' hcases' hinstructions' hpayloads'
      refine ⟨by rw [hnext', ← hnext], ?_, ?_, fun k hk hk' => ?_, ?_, hpayloads' ▸ hfollows.payloads⟩
      · exact (congrArg Nat.succ hfollows.records).trans (congrArg (used₀ .RECORDS + ·) hrecords'.symm)
      · exact hfollows.cases.trans (congrArg (used₀ .CASES + ·) hcases'.symm)
      · exact (if_neg hk).trans (hfollows.others k hk hk')
      · rw [hinstructions', List.map_append, ← hfollows.instructions]
        rfl
    obtain ⟨-, delta, target, -, -, rfl⟩ | ⟨-, -, delta, target, -, -, rfl⟩ | ⟨-, -, rfl⟩ :=
      hbranches <;>
      exact hpush _ rfl rfl rfl rfl rfl

/-- **Any records.** -/
theorem visit_agrees (hskip : code.SkipsRecords) (hcalm : ∀ n, interrupted n = false) {rounds : ℕ}
    (h : code.visitInstructions .malformed units (JadxControlFlowAdapter.accept code units) rounds
      offset d = .ok e)
    (hfollows : Follows used₀ d w) (hrecords : used₀ .RECORDS + e.records ≤ LIMITS .RECORDS)
    (hcases : used₀ .CASES + e.cases ≤ LIMITS .CASES) :
    ∃ w', code.visitInstructions (.reader .malformed) units
      (accept code units interrupted) rounds offset w = .ok w' ∧
      Follows used₀ e w' := by
  induction rounds generalizing offset d w with
  | zero => cases h
  | succ rounds ih =>
    rw [visitInstructions] at h ⊢
    split at h
    · rename_i hlt
      obtain ⟨d', haccept, hrest⟩ := bind_eq_ok.1 h
      obtain ⟨hrecords', hcases', -⟩ := JadxControlFlowAdapter.visit_counts hrest
      obtain ⟨w₁, htaken, hfollows₁⟩ := accept_agrees hskip hcalm haccept hfollows
        (by omega) (by omega)
      obtain ⟨w₂, hvisit, hfollows₂⟩ := ih hrest hfollows₁
      rw [if_pos hlt]
      exact ⟨w₂, bind_eq_ok.2 ⟨w₁, htaken, hvisit⟩, hfollows₂⟩
    · rename_i hend
      obtain rfl := Except.ok.inj h
      rw [if_neg hend]
      exact ⟨w, rfl, hfollows⟩

/-! ## Handlers -/

/-- Both decoders read the same LEB128. -/
theorem lebNext_agrees (hsize : code.file.length ≤ MAX_VALUE) {signed : Bool} {pos : ℕ} {r : ℤ × ℕ}
    (h : JadxControlFlowAdapter.lebNext code signed pos = .ok r) :
    lebNext code.file signed pos = .ok r := by
  have hleb := JadxControlFlowAdapter.leb_file hsize (JadxControlFlowAdapter.lebNext_eq_ok h)
  rw [lebNext, hleb]

/-- Both pass the same target of a handler, -/
theorem handlerTarget_agrees (hsize : code.file.length ≤ MAX_VALUE) {pos : ℕ} {r : ℕ × ℕ}
    (h : JadxControlFlowAdapter.handlerTarget code units d pos = .ok r) :
    ∃ target, lebNext code.file false pos = .ok (target, r.2) := by
  rw [JadxControlFlowAdapter.handlerTarget] at h
  obtain ⟨⟨target, next⟩, hleb, h₁⟩ := bind_eq_ok.1 h
  obtain ⟨_, -, h₂⟩ := bind_eq_ok.1 h₁
  obtain ⟨_, -, h₃⟩ := bind_eq_ok.1 h₂
  obtain rfl := Except.ok.inj h₃
  exact ⟨target, lebNext_agrees hsize hleb⟩

/-- and the same typed handlers. -/
theorem typedPairs_agrees (hsize : code.file.length ≤ MAX_VALUE) {n pos : ℕ} {r : List Handler × ℕ}
    (h : JadxControlFlowAdapter.typedHandlers code units d n pos = .ok r) :
    typedPairs code.file n pos = .ok r.2 := by
  induction n generalizing pos r with
  | zero =>
    obtain rfl := Except.ok.inj h
    rfl
  | succ n ih =>
    rw [JadxControlFlowAdapter.typedHandlers] at h
    obtain ⟨⟨index, pos₁⟩, hindex, h₁⟩ := bind_eq_ok.1 h
    obtain ⟨name, -, h₂⟩ := bind_eq_ok.1 h₁
    obtain ⟨⟨target, pos₂⟩, htarget, h₃⟩ := bind_eq_ok.1 h₂
    obtain ⟨⟨values, pos₃⟩, hvalues, h₄⟩ := bind_eq_ok.1 h₃
    obtain rfl := Except.ok.inj h₄
    obtain ⟨value, hvalue⟩ := handlerTarget_agrees hsize htarget
    have hlater : typedPairs code.file n pos₂ = .ok pos₃ := ih hvalues
    rw [typedPairs]
    exact bind_eq_ok.2 ⟨_, lebNext_agrees hsize hindex, bind_eq_ok.2 ⟨_, hvalue, hlater⟩⟩

/-- **The same handler lists.** -/
theorem handlerSizes_agrees (used : Quota → ℕ) (hsize : code.file.length ≤ MAX_VALUE)
    {handlersStart n total pos : ℕ} {handlers : List (ℕ × List Handler)}
    (h : JadxControlFlowAdapter.handlerLists code units d handlersStart n total pos = .ok handlers)
    (hfits : used .HANDLERS + (handlers.map (·.2.length)).sum ≤ LIMITS .HANDLERS) :
    ∃ used', handlerSizes code.file handlersStart n used pos = .ok
      (used', handlers.map fun l => (l.1, l.2.length)) := by
  induction n generalizing used total pos handlers with
  | zero =>
    obtain rfl := Except.ok.inj h
    exact ⟨used, rfl⟩
  | succ n ih =>
    rw [JadxControlFlowAdapter.handlerLists] at h
    obtain ⟨⟨values, total', next⟩, hvalues, h₁⟩ := bind_eq_ok.1 h
    obtain ⟨rest, hrest, h₂⟩ := bind_eq_ok.1 h₁
    obtain rfl := Except.ok.inj h₂
    obtain ⟨htotal, -, -⟩ := JadxControlFlowAdapter.handlerList_sound hvalues
    rw [JadxControlFlowAdapter.handlerList] at hvalues
    obtain ⟨⟨signed, pos₁⟩, hsigned, h₃⟩ := bind_eq_ok.1 hvalues
    obtain ⟨_, -, h₄⟩ := bind_eq_ok.1 h₃
    obtain ⟨_, -, h₅⟩ := bind_eq_ok.1 h₄
    obtain ⟨⟨typed, pos₂⟩, htyped, h₆⟩ := bind_eq_ok.1 h₅
    -- both readers pass over the pairs
    have hpairs := typedPairs_agrees hsize htyped
    rw [List.map_cons, List.sum_cons] at hfits
    dsimp only at htotal hpairs h₆ hfits
    -- The count is the number of handlers, and both readers are at the same byte behind them.
    have hlist : signed.natAbs + (if signed ≤ 0 then 1 else 0) = values.length ∧
        catchAll code.file signed pos₂ = .ok next := by
      rw [catchAll]
      split at h₆
      · rename_i hle
        obtain ⟨⟨target, pos₃⟩, htarget, h₇⟩ := bind_eq_ok.1 h₆
        obtain ⟨rfl, hrest'⟩ := Prod.mk.inj (Except.ok.inj h₇)
        obtain ⟨rfl, rfl⟩ := Prod.mk.inj hrest'
        obtain ⟨value, hvalue⟩ := handlerTarget_agrees hsize htarget
        rw [if_pos hle, if_pos hle]
        rw [List.length_append] at htotal ⊢
        exact ⟨Nat.add_left_cancel htotal, bind_eq_ok.2 ⟨_, hvalue, rfl⟩⟩
      · rename_i hgt
        obtain ⟨rfl, hrest'⟩ := Prod.mk.inj (Except.ok.inj h₆)
        obtain ⟨rfl, rfl⟩ := Prod.mk.inj hrest'
        rw [if_neg hgt, if_neg hgt]
        exact ⟨Nat.add_left_cancel htotal, rfl⟩
    obtain ⟨hcount, hnext⟩ := hlist
    obtain ⟨used', hsizes⟩ := ih (fun k => if k = Quota.HANDLERS then used .HANDLERS + values.length
        else used k) hrest (by
      rw [if_pos rfl]
      omega)
    refine ⟨used', ?_⟩
    rw [handlerSizes]
    refine bind_eq_ok.2 ⟨_, lebNext_agrees hsize hsigned,
      bind_eq_ok.2 ⟨_, add_eq_ok (by rw [hcount]; omega), bind_eq_ok.2 ⟨_, hpairs,
      bind_eq_ok.2 ⟨_, hnext, bind_eq_ok.2 ⟨_, hcount ▸ hsizes, ?_⟩⟩⟩⟩⟩
    rw [hcount]
    rfl

/-- **The same list for each try.** -/
theorem trySizes_agrees {handlers : List (ℕ × List Handler)}
    {n p aggregate previousEnd referenced : ℕ} {tries : List Try}
    (h : JadxControlFlowAdapter.tryEntries code units d handlers n p aggregate previousEnd = .ok tries)
    (hfits : referenced + (tries.map (·.handlers.length)).sum ≤ LIMITS .HANDLERS) :
    ∃ referenced', trySizes code.file (handlers.map fun l => (l.1, l.2.length)) n p referenced =
      .ok (referenced', tries.map fun t => t.handlers.length) := by
  induction n generalizing p aggregate previousEnd referenced tries with
  | zero =>
    obtain rfl := Except.ok.inj h
    exact ⟨referenced, rfl⟩
  | succ n ih =>
    rw [JadxControlFlowAdapter.tryEntries] at h
    obtain ⟨start, -, h₁⟩ := bind_eq_ok.1 h
    obtain ⟨count, -, h₂⟩ := bind_eq_ok.1 h₁
    obtain ⟨_, -, h₃⟩ := bind_eq_ok.1 h₂
    obtain ⟨_, -, h₄⟩ := bind_eq_ok.1 h₃
    obtain ⟨_, -, h₅⟩ := bind_eq_ok.1 h₄
    obtain ⟨_, -, h₆⟩ := bind_eq_ok.1 h₅
    obtain ⟨relative, hrelative, h₇⟩ := bind_eq_ok.1 h₆
    cases hfind : handlers.find? (·.1 == relative) with
    | none =>
      rw [hfind] at h₇
      cases h₇
    -- the list is found by the same offset
    | some entry =>
      rw [hfind] at h₇
      dsimp only at h₇
      obtain ⟨_, -, h₈⟩ := bind_eq_ok.1 h₇
      obtain ⟨rest, hrest, h₉⟩ := bind_eq_ok.1 h₈
      obtain rfl := Except.ok.inj h₉
      rw [List.map_cons, List.sum_cons] at hfits
      dsimp only at hfits
      obtain ⟨referenced', hsizes⟩ := ih hrest (show referenced + entry.2.length + _ ≤ _ by omega)
      have hfound : (handlers.map fun l => (l.1, l.2.length)).find? (·.1 == relative) = some
          (entry.1, entry.2.length) := by
        rw [List.find?_map]
        exact congrArg (Option.map _) hfind
      refine ⟨referenced', ?_⟩
      rw [trySizes]
      refine bind_eq_ok.2 ⟨relative, getShort_eq_ok ?_, ?_⟩
      · exact (JadxControlFlowAdapter.u16_file hrelative).2
      · rw [hfound]
        dsimp only
        rw [if_neg (Nat.not_lt.2 (by omega))]
        exact bind_eq_ok.2 ⟨_, hsizes, rfl⟩

/-! ## Code items -/

theorem large_of_all {l : List UInt8} (h : (l.all fun x => decide (10 ≤ x.toNat)) = true) :
    ∀ x ∈ l, 10 ≤ x.toNat :=
  fun x hx => of_decide_eq_true (List.all_eq_true.1 h x hx)

/-- The bytes of the header say a lot, read as a number of tries. -/
theorem plainDex_large (h : plainDex code.file = true) {i : ℕ} (hle : i ≤ 6) {b : UInt8}
    (hb : code.file[i]? = some b) :
    10 ≤ b.toNat := by
  simp only [plainDex, Bool.and_eq_true, beq_iff_eq, List.contains_iff_mem] at h
  obtain ⟨⟨⟨-, hmagic⟩, -⟩, hversion⟩ := h
  by_cases hlow : i < 4
  · have hat : (code.file.take 4)[i]? = some b := by
      rw [List.getElem?_take_of_lt hlow, hb]
    exact large_of_all (l := [0x64, 0x65, 0x78, 0x0a]) (by decide) b
      (hmagic ▸ List.mem_of_getElem? hat)
  · have hat : ((code.file.drop 4).take 3)[i - 4]? = some b := by
      rw [List.getElem?_take_of_lt (by omega), List.getElem?_drop, Nat.add_sub_cancel' (by omega), hb]
    have hmem : b ∈ (code.file.drop 4).take 3 := List.mem_of_getElem? hat
    simp only [List.mem_cons, List.not_mem_nil, or_false] at hversion
    rcases hversion with hv | hv | hv | hv | hv <;> rw [hv] at hmem <;> exact large_of_all
      (by decide) b hmem

/-- A code item in the header of the file would have too many tries. -/
theorem codeOffset_nonneg (h : plainDex code.file = true) {tries : ℕ}
    (htries : JadxControlFlowAdapter.u16 code (code.codeOffset + 6) = .ok tries)
    (hle : tries ≤ 256) : 0 ≤ code.codeOffset := by
  by_contra hneg
  obtain ⟨hpos, hread⟩ := JadxControlFlowAdapter.u16_file htries
  obtain ⟨a, b, -, hb, rfl⟩ := le16_eq_ok.1 hread
  have hlarge := plainDex_large h (by omega) hb
  omega

/-- What comes after the records. -/
theorem inventoryCode_begin {s : Counted} {tries : ℕ} {used₁ used₂ : Quota → ℕ}
    {inventory : Inventory}
    (hunits : code.getUnitsCount = .ok units) (hadd₁ : add s.used .UNITS units = .ok used₁)
    (hextent : ¬(4096 < units ∨ code.codeOffset < 0 ∨
      (code.file.length : ℤ) < code.codeOffset + 16 + units * 2))
    (hheader : le16 code.file (code.codeOffset.toNat + 6) = .ok tries)
    (hadd₂ : add used₁ .TRIES tries = .ok used₂)
    (hvisit : code.visitInstructions (.reader .malformed) units (accept code units interrupted)
      (units + 1) 0 ⟨0, used₂, [], []⟩ = .ok w)
    (hend : ¬w.next ≠ units)
    (htail : (if tries = 0 then (pure ⟨⟨w.used, s.referencedHandlers⟩, w.instructions, w.payloads,
      [], []⟩ : Except Refused Inventory)
      else do
        let table ← toIntExact (code.codeOffset.toNat + 16 + units * 2 + units % 2 * 2)
        let handlersStart ← toIntExact (table + tries * 8)
        if code.file.length < handlersStart then refuse "Try extent"
        else do
          let (lists, pos) ← lebNext code.file false handlersStart
          check .HANDLERS lists.toNat
          let (used, sizes) ← handlerSizes code.file handlersStart lists.toNat w.used pos
          let (referenced, tries) ← trySizes code.file sizes tries table s.referencedHandlers
          pure ⟨⟨used, referenced⟩, w.instructions, w.payloads, sizes, tries⟩) = .ok inventory) :
    inventoryCode code interrupted s = .ok inventory := by
  rw [inventoryCode, hunits]
  refine bind_eq_ok.2 ⟨units, rfl, bind_eq_ok.2 ⟨used₁, hadd₁, ?_⟩⟩
  rw [if_neg hextent]
  refine bind_eq_ok.2 ⟨tries, getShort_eq_ok hheader,
    bind_eq_ok.2 ⟨used₂, hadd₂, bind_eq_ok.2 ⟨w, hvisit, ?_⟩⟩⟩
  rw [if_neg hend]
  exact htail


/-- **The two decoders agree.** What the control-flow decoder accepts, and fits the quotas, the
inventory accepts, with the same boundaries, the same handler lists and a list of the same size for
each try. -/
theorem decoders_agree (hdex : plainDex code.file = true) (hsize : code.file.length ≤ MAX_VALUE)
    (hskip : code.SkipsRecords)
    (hcalm : ∀ n, interrupted n = false) {r : JadxControlFlowAdapter.Decoded}
    (h : JadxControlFlowAdapter.decode code = .ok r) {s : Counted}
    (hfits : Fits s r) : ∃ inventory, inventoryCode code interrupted s = .ok inventory ∧
    Agrees r inventory := by
  have hchecked := JadxControlFlowAdapter.decode_checked h
  obtain ⟨hunits, hpos, hle⟩ := hchecked.units
  obtain ⟨htries, -, -, -, -, -⟩ := JadxControlFlowAdapter.tries_sound hchecked.tries
  have hrest := hchecked.tries
  rw [JadxControlFlowAdapter.tries] at hrest
  obtain ⟨tries, hread, h₁⟩ := bind_eq_ok.1 hrest
  obtain ⟨_, hlimit, h₂⟩ := bind_eq_ok.1 h₁
  have hstart := codeOffset_nonneg hdex hread (limit_eq_ok.1 hlimit)
  have hheader : le16 code.file (code.codeOffset.toNat + 6) = .ok tries := by
    obtain ⟨-, hfile⟩ := JadxControlFlowAdapter.u16_file hread
    rwa [show (code.codeOffset + 6).toNat = code.codeOffset.toNat + 6 by omega] at hfile
  have hextent : ¬(4096 < r.units ∨ code.codeOffset < 0 ∨
      (code.file.length : ℤ) < code.codeOffset + 16 + r.units * 2) := by
    obtain ⟨-, -, hend⟩ := JadxControlFlowAdapter.visit_counts hchecked.visit
    have hbytes := hend (hchecked.complete ▸ hpos)
    rw [hchecked.complete, fileOffset] at hbytes
    omega
  -- What is used before the records: the units and the tries.
  -- the header's count is the number of tries that were read
  have hcount : tries = r.tries.length := by
    split at h₂
    · rename_i hzero
      rw [hzero, ← (Prod.mk.inj (Except.ok.inj h₂)).1]
      rfl
    · obtain ⟨_, -, h₃⟩ := bind_eq_ok.1 h₂
      obtain ⟨_, -, h₄⟩ := bind_eq_ok.1 h₃
      obtain ⟨⟨lists, pos⟩, -, h₅⟩ := bind_eq_ok.1 h₄
      obtain ⟨_, -, h₆⟩ := bind_eq_ok.1 h₅
      obtain ⟨handlers, hhandlers, h₇⟩ := bind_eq_ok.1 h₆
      obtain ⟨result, hresult, h₈⟩ := bind_eq_ok.1 h₇
      obtain ⟨-, htargets, -⟩ := JadxControlFlowAdapter.handlerLists_sound hhandlers
      rw [← (Prod.mk.inj (Except.ok.inj h₈)).1]
      exact (JadxControlFlowAdapter.tryEntries_sound htargets hresult).1.symm
  obtain ⟨used₁, hused₁⟩ : ∃ used₁, used₁ = fun k => if k = Quota.UNITS then s.used .UNITS + r.units
    else s.used k := ⟨_, rfl⟩
  obtain ⟨used₂, hused₂⟩ : ∃ used₂, used₂ = fun k => if k = Quota.TRIES then used₁ .TRIES + tries
    else used₁ k := ⟨_, rfl⟩
  have hsame : ∀ k, k ≠ .UNITS → k ≠ .TRIES → used₂ k = s.used k := by
    intro k hk hk'
    rw [hused₂, hused₁]
    exact (if_neg hk').trans (if_neg hk)
  have hadd₁ : add s.used .UNITS r.units = .ok used₁ := hused₁ ▸ add_eq_ok hfits.units
  have hadd₂ : add used₁ .TRIES tries = .ok used₂ := by
    rw [hused₂]
    refine add_eq_ok ?_
    rw [hused₁, hcount]
    exact hfits.tries
  obtain ⟨w, hvisit, hfollows⟩ := visit_agrees hskip hcalm hchecked.visit
    (show Follows used₂ _ ⟨0, used₂, [], []⟩ from ⟨rfl, rfl, rfl, fun _ _ _ => rfl, rfl, rfl⟩)
      (by rw [hsame _ (by decide) (by decide)]; exact hfits.records)
    (by rw [hsame _ (by decide) (by decide)]; exact hfits.cases)
  have hend : ¬w.next ≠ r.units := not_not.2 (hfollows.next.trans hchecked.complete)
  -- The rest is the tries, if there are any.
  have hbegin := fun inventory => @inventoryCode_begin _ _ _ _ _ _ _ _ inventory hunits hadd₁
    hextent hheader hadd₂ hvisit hend
  by_cases hzero : tries = 0
  · rw [if_pos hzero] at h₂
    obtain ⟨hnoTries, hnoHandlers⟩ := Prod.mk.inj (Except.ok.inj h₂)
    refine ⟨_, hbegin _ (if_pos hzero), hfollows.instructions, hfollows.payloads, ?_, ?_⟩
    · rw [← hnoHandlers]
      rfl
    · change [] = r.tries.map _
      rw [← hnoTries]
      rfl
  · rw [if_neg hzero] at h₂
    obtain ⟨_, hfitsTable, h₃⟩ := bind_eq_ok.1 h₂
    obtain ⟨_, htable, h₄⟩ := bind_eq_ok.1 h₃
    obtain ⟨⟨lists, pos⟩, hlists, h₅⟩ := bind_eq_ok.1 h₄
    obtain ⟨_, hlistsLimit, h₆⟩ := bind_eq_ok.1 h₅
    obtain ⟨handlers, hhandlers, h₇⟩ := bind_eq_ok.1 h₆
    obtain ⟨result, hresult, h₈⟩ := bind_eq_ok.1 h₇
    obtain ⟨rfl, rfl⟩ := Prod.mk.inj (Except.ok.inj h₈)
    have hmax := of_decide_eq_true (require_eq_ok.1 hfitsTable)
    -- the padding of an odd body
    obtain ⟨-, -, heven, hbytes⟩ := JadxControlFlowAdapter.bytes_eq_ok htable
    obtain ⟨-, hwithin, -⟩ := getByteCode_eq_ok.1 hbytes
    obtain ⟨table, htableEq⟩ : ∃ table : ℕ, table = code.codeOffset.toNat + 16 + r.units * 2 +
      r.units % 2 * 2 := ⟨_, rfl⟩
    have hcast : code.codeOffset + 16 + r.units * 2 + (r.units % 2 : ℕ) *
      2 = (table : ℤ) := by omega
    rw [hcast] at hmax hwithin hlists hhandlers hresult
    rw [Int.toNat_natCast] at hlists hhandlers hresult
    obtain ⟨used', hsizes⟩ := handlerSizes_agrees w.used hsize hhandlers (by
      rw [hfollows.others _ (by decide) (by decide), hsame _ (by decide) (by decide)]
      exact hfits.handlers)
    obtain ⟨referenced, hreferenced⟩ := trySizes_agrees hresult hfits.referenced
    have hsmall : lists.toNat ≤ 1024 := limit_eq_ok.1 hlistsLimit
    refine ⟨⟨⟨used', referenced⟩, w.instructions, w.payloads, _, _⟩, hbegin _ ?_,
      hfollows.instructions, hfollows.payloads, rfl, rfl⟩
    rw [if_neg hzero, ← htableEq]
    -- the checks of the inventory, with the numbers that the decoder has checked
    refine bind_eq_ok.2 ⟨table, if_neg (by omega), bind_eq_ok.2 ⟨table + tries *
      8, if_neg (by omega), ?_⟩⟩
    rw [if_neg (by omega)]
    refine bind_eq_ok.2 ⟨_, lebNext_agrees hsize hlists,
      bind_eq_ok.2 ⟨(), if_neg ?_, bind_eq_ok.2 ⟨_, hsizes, bind_eq_ok.2 ⟨_, hreferenced, rfl⟩⟩⟩⟩
    exact Nat.not_lt.2 (hsmall.trans (by decide))

/-- A file with an `if-eqz` and a `return-void`, and a handler of everything around both. -/
def guardedFile : List UInt8 :=
  [0x64, 0x65, 0x78, 0x0a, 0x30, 0x33, 0x35, 0] ++ List.replicate 104 0 ++
    [1, 0, 1, 0, 0, 0, 1, 0, 0, 0, 0, 0, 3, 0, 0, 0] ++ [0x38, 0, 2, 0, 0x0e, 0, 0, 0] ++
      [0, 0, 0, 0, 3, 0, 1, 0] ++ [1, 0, 2, 0]

def guardedInfo (op : ℕ) : Option InsnInfo :=
  if op = 0x38 then some ⟨str "if-eqz", 2⟩ else if op = 0x0e then some ⟨str "return-void", 1⟩
    else none

/-- The length of what the first unit says. -/
def guardedLength : Except Refusal ℕ → ℕ
  | .ok op => if op = 0x38 then 2 else 1
  | .error _ => 0

def unskipped : DexCode := ⟨guardedFile, 112, guardedInfo, fun _ => 0, fun _ => none⟩

/-- A reader that skips as its opcodes say. -/
def withLengths (code : DexCode) (length : Except Refusal ℕ → ℕ) : DexCode :=
  { code with skipLength := fun offset => length (code.getRawOpcodeUnit offset) }

def guarded : DexCode := withLengths unskipped guardedLength

theorem skipLength_withLengths (code : DexCode) (length : Except Refusal ℕ → ℕ) (offset : ℕ) :
    (withLengths code length).skipLength offset = length
    ((withLengths code length).getRawOpcodeUnit offset) := rfl

/-- The opcodes of the guarded code. -/
theorem guardedInfo_cases {op : ℕ} {info : InsnInfo} (h : guardedInfo op = some info) :
    (op = 0x38 ∧ info.length = 2) ∨ op = 0x0e ∧ info.length = 1 := by
  unfold guardedInfo at h
  split at h
  · rename_i hop
    obtain rfl := Option.some.inj h
    exact .inl ⟨hop, rfl⟩
  · split at h
    · rename_i hop
      obtain rfl := Option.some.inj h
      exact .inr ⟨hop, rfl⟩
    · cases h

/-- The reader of the guarded code skips its records. -/
theorem guarded_skips : guarded.SkipsRecords where
  instruction offset op info hop hinfo _ := by
    have hlength : guarded.skipLength offset = guardedLength (guarded.getRawOpcodeUnit offset) :=
      skipLength_withLengths unskipped guardedLength offset
    rw [hop] at hlength
    obtain ⟨rfl, heq⟩ | ⟨rfl, heq⟩ := guardedInfo_cases hinfo <;> rw [hlength, heq] <;> rfl
  payload offset op info count _ hinfo hnegative := by
    have hpos : 0 < info.length := by
      obtain ⟨-, heq⟩ | ⟨-, heq⟩ := guardedInfo_cases hinfo <;> omega
    exact absurd hnegative hpos.le.not_gt

theorem guarded_decoded : (JadxControlFlowAdapter.decode guarded).toOption.map
    (fun r => (r.units, r.decoder.records, r.decoder.cases)) =
    some (3, 2, 0) ∧ (JadxControlFlowAdapter.decode guarded).toOption.map (fun r =>
      (r.handlers.map fun l => l.2.length, r.tries.map fun t => t.handlers.length)) = some
      ([1], [1]) := by
  decide +kernel

/-- What both say of `guarded`. -/
theorem guarded_agrees : ∃ r inventory, JadxControlFlowAdapter.decode guarded = .ok r ∧
    inventoryCode guarded (fun _ => false) ⟨fun _ => 0, 0⟩ = .ok inventory ∧
      Agrees r inventory := by
  obtain ⟨hcounts, hhandlers⟩ := guarded_decoded
  cases hdecode : JadxControlFlowAdapter.decode guarded with
  | error refusal =>
    rw [hdecode] at hcounts
    cases hcounts
  | ok r =>
    rw [hdecode] at hcounts hhandlers
    obtain ⟨hunits, hrest⟩ := Prod.mk.inj (Option.some.inj hcounts)
    obtain ⟨hrecords, hcases⟩ := Prod.mk.inj hrest
    obtain ⟨hlists, htries⟩ := Prod.mk.inj (Option.some.inj hhandlers)
    have hlength : r.tries.length = 1 := by
      have h := congrArg List.length htries
      rwa [List.length_map] at h
    have hfits : Fits ⟨fun _ => 0, 0⟩ r := by
      refine ⟨?_, ?_, ?_, ?_, ?_, ?_⟩
      · rw [hunits]; decide
      · rw [hrecords]; decide
      · rw [hlength]; decide
      · rw [hcases]; decide
      · rw [hlists]; decide
      · rw [htries]; decide
    obtain ⟨inventory, htaken, hagrees⟩ :=
      decoders_agree (by decide +kernel) (by decide +kernel) guarded_skips (fun _ => rfl : ∀ n,
        (fun _ => false) n = false) hdecode hfits
    exact ⟨r, inventory, rfl, htaken, hagrees⟩

end OwnedDexAnalysis

end Libjadx
