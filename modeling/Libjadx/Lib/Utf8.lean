import Mathlib.Data.List.Basic
import Mathlib.Tactic.IntervalCases

/-!
# UTF-8

Code points are natural numbers. `bytes` encodes one; `decode` is the strict decoder, which takes
one byte at a time: no overlong form, no surrogate, nothing above `0x10FFFF`. What `encode` writes
of scalar values is read back (`decode_encode`), and an ASCII byte in it is an ASCII code point
(`mem_bytes_ascii`).
-/

namespace Libjadx

namespace Utf8

/-- A code point that is no surrogate. -/
def Scalar (p : ℕ) : Prop := p < 0xD800 ∨ 0xE000 ≤ p ∧ p < 0x110000

instance (p : ℕ) : Decidable (Scalar p) := inferInstanceAs (Decidable (_ ∨ _))

/-- The bytes of a code point. -/
def bytes (p : ℕ) : List UInt8 :=
  if p < 0x80 then [p.toUInt8]
  else if p < 0x800 then [(0xC0 + p / 0x40).toUInt8, (0x80 + p % 0x40).toUInt8]
  else if p < 0x10000 then [(0xE0 + p / 0x1000).toUInt8, (0x80 + p / 0x40 % 0x40).toUInt8,
    (0x80 + p % 0x40).toUInt8]
  else [(0xF0 + p / 0x40000).toUInt8, (0x80 + p / 0x1000 % 0x40).toUInt8,
    (0x80 + p / 0x40 % 0x40).toUInt8,
    (0x80 + p % 0x40).toUInt8]

def encode (l : List ℕ) : List UInt8 := l.flatMap bytes

/-- A character that is not complete: the bytes that follow the next one, the range of the next one,
and the bits so far. -/
structure Partial where
  owed : ℕ
  low : ℕ
  high : ℕ
  bits : ℕ

/-- The first byte of a character that is not ASCII. -/
def first (b : ℕ) : Option Partial :=
  if b < 0xC2 then none
  else if b < 0xE0 then some ⟨0, 0x80, 0xC0, b - 0xC0⟩
  else if b = 0xE0 then some ⟨1, 0xA0, 0xC0, 0⟩
  else if b = 0xED then some ⟨1, 0x80, 0xA0, 0xD⟩
  else if b < 0xF0 then some ⟨1, 0x80, 0xC0, b - 0xE0⟩
  else if b = 0xF0 then some ⟨2, 0x90, 0xC0, 0⟩
  else if b < 0xF4 then some ⟨2, 0x80, 0xC0, b - 0xF0⟩
  else if b = 0xF4 then some ⟨2, 0x80, 0x90, 4⟩
  else none

def decodeFrom : Option Partial → List UInt8 → Option (List ℕ)
  | none, [] => some []
  | some _, [] => none
  | none, b :: l =>
    if b.toNat < 0x80 then (decodeFrom none l).map (b.toNat :: ·)
    else match first b.toNat with
      | none => none
      | some c => decodeFrom (some c) l
  | some c, b :: l =>
    if c.low ≤ b.toNat ∧ b.toNat < c.high then
      let bits := c.bits * 0x40 + (b.toNat - 0x80)
      if c.owed = 0 then (decodeFrom none l).map (bits :: ·) else decodeFrom
        (some ⟨c.owed - 1, 0x80, 0xC0, bits⟩) l
    else none

/-- The code points of the bytes, where all of them are well formed. -/
def decode (l : List UInt8) : Option (List ℕ) := decodeFrom none l

@[simp] theorem encode_nil : encode [] = [] := rfl

@[simp] theorem encode_cons (p : ℕ) (l : List ℕ) : encode (p :: l) = bytes p ++ encode l := rfl

@[simp] theorem encode_append (l m : List ℕ) :
    encode (l ++ m) = encode l ++ encode m := List.flatMap_append

variable {l : List UInt8} {c : Partial} {n p : ℕ}

theorem decodeFrom_ascii (h : n < 0x80) : decodeFrom none (n.toUInt8 :: l) = (decodeFrom none l).map
    (n :: ·) := by
  have hn : n.toUInt8.toNat = n := UInt8.toNat_ofNat_of_lt' (show _ < 256 by omega)
  rw [decodeFrom, hn, if_pos h]

theorem decodeFrom_first (h : 0x80 ≤ n) (hlt : n < 0x100) (hc : first n = some c) :
    decodeFrom none (n.toUInt8 :: l) = decodeFrom (some c) l := by
  have hn : n.toUInt8.toNat = n := UInt8.toNat_ofNat_of_lt' hlt
  rw [decodeFrom, hn, if_neg (by omega), hc]

theorem decodeFrom_next (hlow : c.low ≤ 0x80 + n) (hhigh : 0x80 + n < c.high) (hlt : n < 0x40)
    (ho : c.owed ≠ 0) :
    decodeFrom (some c) ((0x80 + n).toUInt8 :: l) = decodeFrom
      (some ⟨c.owed - 1, 0x80, 0xC0, c.bits * 0x40 + n⟩) l := by
  have hn : (0x80 + n).toUInt8.toNat = 0x80 + n := UInt8.toNat_ofNat_of_lt' (show _ < 256 by omega)
  have hsub : 0x80 + n - 0x80 = n := by omega
  rw [decodeFrom, hn, if_pos ⟨hlow, hhigh⟩, hsub]
  exact if_neg ho

theorem decodeFrom_last (hlow : c.low ≤ 0x80 + n) (hhigh : 0x80 + n < c.high) (hlt : n < 0x40)
    (ho : c.owed = 0) :
    decodeFrom (some c) ((0x80 + n).toUInt8 :: l) = (decodeFrom none l).map
      ((c.bits * 0x40 + n) :: ·) := by
  have hn : (0x80 + n).toUInt8.toNat = 0x80 + n := UInt8.toNat_ofNat_of_lt' (show _ < 256 by omega)
  have hsub : 0x80 + n - 0x80 = n := by omega
  rw [decodeFrom, hn, if_pos ⟨hlow, hhigh⟩, hsub]
  exact if_pos ho

/-- The first byte of three says what the second may be. -/
theorem first_three (h : n < 0x10) : first (0xE0 + n) =
    some ⟨1, if n = 0 then 0xA0 else 0x80, if n = 0xD then 0xA0 else 0xC0, n⟩ := by
  interval_cases n <;> rfl

/-- The first byte of four says what the second may be. -/
theorem first_four (h : n < 5) : first (0xF0 + n) =
    some ⟨2, if n = 0 then 0x90 else 0x80, if n = 4 then 0x90 else 0xC0, n⟩ := by
  interval_cases n <;> rfl

/-- **The bytes of a scalar value are read back.** -/
theorem decode_bytes (hp : Scalar p) (l : List UInt8) :
    decode (bytes p ++ l) = (decode l).map (p :: ·) := by
  have hlt : p < 0x110000 := by
    rcases hp with h | h <;> omega
  unfold bytes decode
  split
  · rename_i h
    exact decodeFrom_ascii h
  split
  · rename_i h0 h
    have hfirst : first (0xC0 + p / 0x40) = some ⟨0, 0x80, 0xC0, p / 0x40⟩ := by
      unfold first
      rw [if_neg (by omega), if_pos (by omega), Nat.add_sub_cancel_left]
    have hval : p / 0x40 * 0x40 + p % 0x40 = p := by omega
    simp only [List.cons_append, List.nil_append]
    rw [decodeFrom_first (by omega) (by omega) hfirst]
    rw [decodeFrom_last (by simp) (by show _ < 0xC0; omega) (by omega) rfl, hval]
  split
  · rename_i h0 h1 h
    have hfirst := first_three (n := p / 0x1000) (by omega)
    have hval : (p / 0x1000 * 0x40 + p / 0x40 % 0x40) * 0x40 + p % 0x40 = p := by omega
    simp only [List.cons_append, List.nil_append]
    rw [decodeFrom_first (by omega) (by omega) hfirst]
    -- no overlong form, and no surrogate
    have hlow : (if p / 0x1000 = 0 then 0xA0 else 0x80) ≤ 0x80 + p / 0x40 % 0x40 := by
      split <;> omega
    have hhigh : 0x80 + p / 0x40 % 0x40 < if p / 0x1000 = 0xD then 0xA0 else 0xC0 := by
      rcases hp with hs | hs <;> split <;> omega
    rw [decodeFrom_next hlow hhigh (by omega) Nat.one_ne_zero]
    rw [decodeFrom_last (by simp) (by show _ < 0xC0; omega) (by omega) rfl, hval]
  · rename_i h0 h1 h
    have hfirst := first_four (n := p / 0x40000) (by omega)
    have hval : ((p / 0x40000 * 0x40 + p / 0x1000 % 0x40) * 0x40 + p / 0x40 % 0x40) * 0x40 +
      p % 0x40 = p := by omega
    simp only [List.cons_append, List.nil_append]
    rw [decodeFrom_first (by omega) (by omega) hfirst]
    have hlow : (if p / 0x40000 = 0 then 0x90 else 0x80) ≤ 0x80 + p / 0x1000 % 0x40 := by
      split <;> omega
    have hhigh : 0x80 + p / 0x1000 % 0x40 < if p / 0x40000 = 4 then 0x90 else 0xC0 := by
      split <;> omega
    rw [decodeFrom_next hlow hhigh (by omega) (Nat.succ_ne_zero 1)]
    rw [decodeFrom_next (by simp) (by show _ < 0xC0; omega) (by omega) Nat.one_ne_zero]
    rw [decodeFrom_last (by simp) (by show _ < 0xC0; omega) (by omega) rfl, hval]

theorem decode_encode {s : List ℕ} (h : ∀ p ∈ s, Scalar p) : decode (encode s) = some s := by
  induction s with
  | nil => rfl
  | cons p s ih =>
    have hs := ih fun q hq => h q (List.mem_cons_of_mem _ hq)
    rw [encode_cons, decode_bytes (h p List.mem_cons_self), hs]
    rfl

/-- Equal bytes are equal texts. -/
theorem encode_injective {s t : List ℕ} (hs : ∀ p ∈ s, Scalar p) (ht : ∀ p ∈ t, Scalar p)
    (h : encode s = encode t) : s = t := by
  have hd := decode_encode hs
  rw [h, decode_encode ht] at hd
  exact (Option.some.inj hd).symm

/-- The bytes of a character that is not ASCII are not ASCII. -/
theorem mem_bytes_ascii {b : UInt8} (hp : p < 0x110000) (h : b ∈ bytes p) (hb : b.toNat < 0x80) :
    p = b.toNat := by
  have hne : ∀ n, 0x80 ≤ n → n < 0x100 → b ≠ n.toUInt8 := by
    intro n hn hlt he
    rw [he, UInt8.toNat_ofNat_of_lt' hlt] at hb
    omega
  unfold bytes at h
  split at h
  · rename_i hlt
    obtain rfl := List.mem_singleton.1 h
    exact (UInt8.toNat_ofNat_of_lt' (show _ < 256 by omega)).symm
  split at h
  · simp only [List.mem_cons, List.not_mem_nil, or_false] at h
    rcases h with h | h <;> exact absurd h (hne _ (by omega) (by omega))
  split at h
  · simp only [List.mem_cons, List.not_mem_nil, or_false] at h
    rcases h with h | h | h <;> exact absurd h (hne _ (by omega) (by omega))
  · simp only [List.mem_cons, List.not_mem_nil, or_false] at h
    rcases h with h | h | h | h <;> exact absurd h (hne _ (by omega) (by omega))

end Utf8

end Libjadx
