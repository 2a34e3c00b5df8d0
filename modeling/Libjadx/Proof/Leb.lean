import Libjadx.Spec.DexCode

/-!
# The two LEB128 readers

* `lebIn_eq_some_iff`: a reader accepts encodings of at most five bytes of the numbers in its range.
* `leb_exact_iff`: both readers do so, and agree, unless an encoding ends with the last byte of a
  file of an odd number of bytes, which the accessor of the one does not reach.
-/

namespace Libjadx

open Leb128

/-- The 32-bit numbers. -/
def InRange (signed : Bool) (v : ℤ) : Prop :=
  if signed then -0x80000000 ≤ v ∧ v ≤ 0x7FFFFFFF else 0 ≤ v ∧ v ≤ 0xFFFFFFFF

/-- An encoding of a 32-bit number, of at most five bytes. -/
structure Encodes (signed : Bool) (l : List UInt8) (v : ℤ) : Prop where
  terminated : Terminated l
  short : l.length ≤ 5
  value : denotes signed l = v
  range : InRange signed v

section Readers

variable {read : ℕ → Option UInt8} {signed : Bool} {pos next : ℕ} {v : ℤ}

/-- What is in range, signed or not. -/
theorem inRange_iff {l : List UInt8} : InRange signed (denotes signed l) ↔
    if signed then -0x80000000 ≤ denotes signed l ∧ denotes signed l ≤ 0x7FFFFFFF
      else denotes signed l ≤ 0xFFFFFFFF := by
  cases signed with
  | true => rfl
  | false =>
    have hpos : 0 ≤ denotes false l := by
      rw [denotes, if_neg (by simp)]
      exact Int.natCast_nonneg _
    exact and_iff_right hpos

/-- **A reader accepts encodings.** -/
theorem lebIn_eq_some_iff : lebIn read signed pos = some (v, next) ↔
    ∃ l, Encodes signed l v ∧ Holds read pos l ∧ next = pos + l.length := by
  have hloop := @loop_eq_some_iff read 5 0 0 pos (by decide)
  unfold lebIn
  rcases ht : loop read 5 0 0 pos with - | t
  · refine ⟨(nomatch ·), ?_⟩
    rintro ⟨l, hl, hholds, -⟩
    have hne : l ≠ [] := by
      rintro rfl
      exact hl.terminated
    rw [hloop.2 ⟨l, l.getLast hne, hl.terminated, hl.short, hholds,
      List.getLast?_eq_getLast_of_ne_nil hne, rfl⟩] at ht
    cases ht
  · dsimp only
    obtain ⟨l, last, hl, hshort, hholds, hlast, rfl⟩ := hloop.1 ht
    have hdenotes : (if (signed && negative last) = true then ((0 + 2 ^ 0 * value l : ℕ) : ℤ) -
        2 ^ (0 + 7 * l.length)
        else ((0 + 2 ^ 0 * value l : ℕ) : ℤ)) = denotes signed l := by
      rw [denotes, hlast, Option.any_some]
      simp
    rw [hdenotes]
    by_cases hrange : InRange signed (denotes signed l)
    · rw [if_pos (inRange_iff.1 hrange)]
      constructor
      · intro heq
        obtain ⟨rfl, rfl⟩ := Prod.mk.inj (Option.some.inj heq)
        exact ⟨l, ⟨hl, hshort, rfl, hrange⟩, hholds, rfl⟩
      · rintro ⟨l', hl', hholds', rfl⟩
        rw [eq_of_holds hl hl'.terminated hholds hholds', hl'.value]
    · rw [if_neg fun h => hrange (inRange_iff.2 h)]
      refine ⟨(nomatch ·), ?_⟩
      rintro ⟨l', hl', hholds', rfl⟩
      rw [eq_of_holds hl hl'.terminated hholds hholds', hl'.value] at hrange
      exact absurd hl'.range hrange

/-- **A reader rejects** bytes that end before the encoding, five followed bytes, and numbers out of
range. -/
theorem lebIn_eq_none (h : lebIn read signed pos = none) :
    (∃ n < 5, (∀ k < n, ∃ b, read (pos + k) = some b ∧ continues b = true) ∧
      read (pos + n) = none) ∨
      (∀ k < 5, ∃ b, read (pos + k) = some b ∧ continues b = true) ∨
        ∃ l, Terminated l ∧ l.length ≤ 5 ∧ Holds read pos l ∧ ¬InRange signed
          (denotes signed l) := by
  rcases ht : loop read 5 0 0 pos with - | t
  · exact or_assoc.1 (.inl (loop_eq_none_iff.1 ht))
  · obtain ⟨l, last, hl, hshort, hholds, -, -⟩ := (loop_eq_some_iff (by decide)).1 ht
    refine .inr (.inr ⟨l, hl, hshort, hholds, fun hrange => ?_⟩)
    rw [lebIn_eq_some_iff.2 ⟨l, ⟨hl, hshort, rfl, hrange⟩, hholds, rfl⟩] at h
    cases h

end Readers

/-! ## The bytes of the file -/

/-- The bytes of a file from a position on. -/
theorem holds_file_iff {file l : List UInt8} {pos : ℕ} :
    Holds (fun i => file[i]?) pos l ↔ l <+: file.drop pos := by
  rw [List.prefix_iff_getElem?]
  refine forall_congr' fun k => forall_congr' fun hk => ?_
  rw [List.getElem?_drop, List.getElem?_eq_getElem hk]

namespace JadxControlFlowAdapter

open DexCode

/-- The accessor reads pairs of bytes. -/
theorem u8_toOption (code : DexCode) (hsize : code.file.length ≤ MAX_VALUE) (i : ℕ) :
    (u8 code i).toOption = if i - i % 2 + 2 ≤ code.file.length then code.file[i]? else none := by
  have hmod : i % 2 < 2 := Nat.mod_lt _ (by decide)
  by_cases hend : i - i % 2 + 2 ≤ code.file.length
  · have hfits : ((i - i % 2 : ℕ) : ℤ) + (2 : ℕ) ≤ MAX_VALUE := by omega
    have hread : 0 ≤ ((i - i % 2 : ℕ) : ℤ) ∧
      ((i - i % 2 : ℕ) : ℤ) + 2 * (2 / 2 : ℕ) ≤ code.file.length := by omega
    have hi : i < code.file.length := by omega
    have hbytes : bytes code (i - i % 2 : ℕ) 2 = .ok ((code.file.drop (i - i % 2)).take 2) := by
      rw [bytes, getByteCode, if_pos hread, require, decide_eq_true hfits]
      simp [bind, Except.bind]
    have hget : ((code.file.drop (i - i % 2)).take 2)[i % 2]? = some code.file[i] := by
      rw [List.getElem?_take_of_lt hmod, List.getElem?_drop, show i - i % 2 + i % 2 = i by omega,
        List.getElem?_eq_getElem hi]
    rw [if_pos hend, u8, hbytes, List.getElem?_eq_getElem hi]
    simp only [bind, Except.bind, hget]
    rfl
  · have hbytes : bytes code (i - i % 2 : ℕ) 2 = .error .malformed := by
      have hread : ¬(0 ≤ ((i - i % 2 : ℕ) : ℤ) ∧
        ((i - i % 2 : ℕ) : ℤ) + 2 * (2 / 2 : ℕ) ≤ code.file.length) := by omega
      rw [bytes, getByteCode, if_neg hread, require]
      split <;> rfl
    rw [if_neg hend, u8, hbytes]
    rfl

/-- All bytes of the file but the last of an odd number. -/
theorem u8_toOption_iff {code : DexCode} (hsize : code.file.length ≤ MAX_VALUE) {i : ℕ}
    {b : UInt8} :
    (u8 code i).toOption = some b ↔
      code.file[i]? = some b ∧ ¬(code.file.length % 2 = 1 ∧ i + 1 = code.file.length) := by
  rw [u8_toOption code hsize]
  split
  · rename_i hend
    refine ⟨fun h => ⟨h, by omega⟩, fun h => h.1⟩
  · rename_i hend
    refine ⟨(nomatch ·), fun h => absurd (List.getElem?_eq_some_iff.1 h.1).1 (by omega)⟩

end JadxControlFlowAdapter

/-! ## Both readers -/

/-- The numbers are read as LEB128 says, and alike. -/
structure LebExact (code : DexCode) (pos : ℕ) : Prop where
  agree : ∀ signed, JadxControlFlowAdapter.leb code signed pos = OwnedDexAnalysis.leb code.file signed pos
  accepted : ∀ signed v next, JadxControlFlowAdapter.leb code signed pos = some (v, next) ↔
    ∃ l, Encodes signed l v ∧ l <+: code.file.drop pos ∧ next = pos + l.length
  /-- Cut off, longer than five bytes, or out of range. -/
  rejected : ∀ signed, JadxControlFlowAdapter.leb code signed pos = none →
    (∃ n < 5, (∀ k < n, ∃ b, code.file[pos + k]? = some b ∧ continues b = true) ∧
      code.file.length ≤ pos + n) ∨
      (∀ k < 5, ∃ b, code.file[pos + k]? = some b ∧ continues b = true) ∨
        ∃ l, Terminated l ∧ l.length ≤ 5 ∧ l <+: code.file.drop pos ∧
          ¬InRange signed (denotes signed l)

/-- **What the other decoder reads.** -/
theorem OwnedDexAnalysis.leb_eq_some_iff {file : List UInt8} {signed : Bool}
    {pos next : ℕ} {v : ℤ} :
    OwnedDexAnalysis.leb file signed pos = some (v, next) ↔
      ∃ l, Encodes signed l v ∧ l <+: file.drop pos ∧ next = pos + l.length := by
  simp only [OwnedDexAnalysis.leb, lebIn_eq_some_iff, holds_file_iff]

/-- Where it reads nothing, the bytes end too early, or the number is too long. -/
theorem OwnedDexAnalysis.leb_eq_none {file : List UInt8} {signed : Bool} {pos : ℕ}
    (h : OwnedDexAnalysis.leb file signed pos = none) :
    (∃ n < 5, (∀ k < n, ∃ b, file[pos + k]? = some b ∧ continues b = true) ∧
      file.length ≤ pos + n) ∨
      (∀ k < 5, ∃ b, file[pos + k]? = some b ∧ continues b = true) ∨
        ∃ l, Terminated l ∧ l.length ≤ 5 ∧ l <+: file.drop pos ∧ ¬InRange signed
          (denotes signed l) := by
  have hnone := lebIn_eq_none h
  simpa only [List.getElem?_eq_none_iff, holds_file_iff] using hnone

/-- The last byte of an odd number is in no encoding but those that end with it. -/
theorem JadxControlFlowAdapter.holds_iff {code : DexCode}
    (hsize : code.file.length ≤ DexCode.MAX_VALUE) {l : List UInt8}
    {pos : ℕ} (hne : l ≠ []) : Holds (fun i => (u8 code i).toOption) pos l ↔
      l <+: code.file.drop pos ∧ ¬(code.file.length % 2 = 1 ∧ l = code.file.drop pos) := by
  have hpos := List.length_pos_iff.2 hne
  rw [← holds_file_iff]
  constructor
  · intro h
    have hread : ∀ k, ∀ hk : k < l.length, code.file[pos + k]? = l[k]? ∧
        ¬(code.file.length % 2 = 1 ∧ pos + k + 1 = code.file.length) := by
      intro k hk
      have hat := h k hk
      rw [List.getElem?_eq_getElem hk] at hat ⊢
      exact (u8_toOption_iff hsize).1 hat
    refine ⟨fun k hk => (hread k hk).1, fun hlast => (hread (l.length - 1) (by omega)).2 ⟨hlast.1, ?_⟩⟩
    have hlength := congrArg List.length hlast.2
    rw [List.length_drop] at hlength
    omega
  · rintro ⟨h, hlast⟩ k hk
    have hat := h k hk
    rw [List.getElem?_eq_getElem hk] at hat ⊢
    refine (u8_toOption_iff hsize).2 ⟨hat, fun hend => hlast ⟨hend.1, ?_⟩⟩
    obtain ⟨t, ht⟩ := holds_file_iff.1 h
    have hlength := congrArg List.length ht
    rw [List.length_append, List.length_drop] at hlength
    rw [← ht, List.eq_nil_of_length_eq_zero (l := t) (by omega), List.append_nil]

/-- **Both readers are right**, and the same, but for a number that ends with the last byte of an
odd number. -/
theorem leb_exact_iff {code : DexCode} (hsize : code.file.length ≤ DexCode.MAX_VALUE) (pos : ℕ) :
    LebExact code pos ↔
    ¬(code.file.length % 2 = 1 ∧ ∃ signed v, Encodes signed (code.file.drop pos) v) := by
  have hsome : ∀ signed v next, JadxControlFlowAdapter.leb code signed pos = some (v, next) ↔
      ∃ l, Encodes signed l v ∧ (l <+: code.file.drop pos ∧
        ¬(code.file.length % 2 = 1 ∧ l = code.file.drop pos)) ∧
        next = pos + l.length := by
    intro signed v next
    rw [JadxControlFlowAdapter.leb, lebIn_eq_some_iff]
    refine exists_congr fun l => and_congr_right fun hl =>
      and_congr_left' (JadxControlFlowAdapter.holds_iff hsize ?_)
    rintro rfl
    exact hl.terminated
  constructor
  · rintro hexact ⟨hodd, signed, v, henc⟩
    have howned := OwnedDexAnalysis.leb_eq_some_iff.2 ⟨_, henc, List.prefix_refl _, rfl⟩
    rw [← hexact.agree, hsome] at howned
    obtain ⟨l, hl, ⟨hstarts, hlast⟩, -⟩ := howned
    have hsame := eq_of_holds hl.terminated henc.terminated (holds_file_iff.2 hstarts)
      (holds_file_iff.2 (List.prefix_refl _))
    exact hlast ⟨hodd, hsame⟩
  · intro hnot
    have hagree : ∀ signed, JadxControlFlowAdapter.leb code signed pos = OwnedDexAnalysis.leb
        code.file signed pos := by
      intro signed
      refine Option.ext fun ⟨v, next⟩ => ?_
      rw [hsome, OwnedDexAnalysis.leb_eq_some_iff]
      refine exists_congr fun l => and_congr_right fun hl => and_congr_left' (and_iff_left ?_)
      rintro ⟨hodd, rfl⟩
      exact hnot ⟨hodd, signed, v, hl⟩
    refine ⟨hagree, fun signed v next => ?_, fun signed h => ?_⟩
    · rw [hagree, OwnedDexAnalysis.leb_eq_some_iff]
    · exact OwnedDexAnalysis.leb_eq_none (hagree signed ▸ h)

theorem leb_exact_padded :
    LebExact ⟨[0xE5, 0x8E, 0x26, 0x80, 0x00, 0x7F], 0, fun _ => none, fun _ => 0,
    fun _ => none⟩ 0 :=
  (leb_exact_iff (by decide) 0).2 fun h => absurd h.1 (by decide)

/-- The last byte of an odd number is a number for one of the readers alone. -/
theorem leb_cut_off : ¬LebExact ⟨[0x05], 0, fun _ => none, fun _ => 0, fun _ => none⟩ 0 := by
  intro h
  exact absurd (h.agree false) (by decide)

end Libjadx
