import Mathlib.Data.List.Basic
import Mathlib.Data.UInt

/-!
# Data streams

Numbers and texts as bytes, the highest byte first, a text as its length in two bytes and its units
in one to three bytes each. Every reader takes what it needs from the front and leaves the rest, so
what was written in a row is read in a row (`readInt_writeInt`, `readLong_writeLong`,
`readUTF_writeUTF`, `readChars_writeChars`).
-/

namespace Libjadx

namespace DataStream

/-! ## Numbers -/

/-- The lowest bytes of a number, the highest first. -/
def bytes : ℕ → ℕ → List UInt8
  | 0, _ => []
  | k + 1, n => bytes k (n / 256) ++ [n.toUInt8]

def value (l : List UInt8) : ℕ := l.foldl (fun v b => v * 256 + b.toNat) 0

/-- A number of so many bytes from the front. -/
def read (k : ℕ) (l : List UInt8) : Option (ℕ × List UInt8) :=
  if k ≤ l.length then some (value (l.take k), l.drop k) else none

@[simp] theorem length_bytes (k n : ℕ) : (bytes k n).length = k := by
  induction k generalizing n with
  | zero => rfl
  | succ k ih => rw [bytes, List.length_append, ih, List.length_singleton]

theorem value_bytes (k n : ℕ) : value (bytes k n) = n % 256 ^ k := by
  induction k generalizing n with
  | zero => simp [bytes, value, Nat.mod_one]
  | succ k ih =>
    have hstep : value (bytes (k + 1) n) = value (bytes k (n / 256)) * 256 + n % 256 := by
      unfold value
      rw [bytes, List.foldl_append]
      simp
    rw [hstep, ih, Nat.pow_succ', Nat.mod_mul]
    omega

theorem read_bytes {k n : ℕ} (h : n < 256 ^ k) (rest : List UInt8) :
    read k (bytes k n ++ rest) = some (n, rest) := by
  have hlen := length_bytes k n
  have hle : k ≤ (bytes k n ++ rest).length := by
    rw [List.length_append]
    omega
  unfold read
  rw [if_pos hle, List.take_left' hlen, List.drop_left' hlen, value_bytes, Nat.mod_eq_of_lt h]

def writeInt (n : Int32) : List UInt8 := bytes 4 n.toUInt32.toNat

def readInt (l : List UInt8) : Option (Int32 × List UInt8) := (read 4 l).map fun r =>
    (r.1.toUInt32.toInt32, r.2)

def writeLong (n : Int64) : List UInt8 := bytes 8 n.toUInt64.toNat

def readLong (l : List UInt8) : Option (Int64 × List UInt8) := (read 8 l).map fun r =>
    (r.1.toUInt64.toInt64, r.2)

theorem readInt_writeInt (n : Int32) (rest : List UInt8) :
    readInt (writeInt n ++ rest) = some (n, rest) := by
  have hlt : n.toUInt32.toNat < 256 ^ 4 := n.toUInt32.toNat_lt
  unfold readInt writeInt
  rw [read_bytes hlt, Option.map_some]
  simp

theorem readLong_writeLong (n : Int64) (rest : List UInt8) :
    readLong (writeLong n ++ rest) = some (n, rest) := by
  have hlt : n.toUInt64.toNat < 256 ^ 8 := n.toUInt64.toNat_lt
  unfold readLong writeLong
  rw [read_bytes hlt, Option.map_some]
  simp

/-! ## Texts -/

/-- The bytes of a unit; the unit 0 takes two. -/
def unitBytes (c : UInt16) : List UInt8 :=
  let n := c.toNat
  if 0 < n ∧ n < 0x80 then [n.toUInt8]
  else if n < 0x800 then [(0xC0 + n / 0x40).toUInt8, (0x80 + n % 0x40).toUInt8]
  else [(0xE0 + n / 0x1000).toUInt8, (0x80 + n / 0x40 % 0x40).toUInt8, (0x80 + n % 0x40).toUInt8]

/-- A byte that is not the first of its unit. -/
def continues (b : UInt8) : Bool := b.toNat / 0x40 = 2

def readUnits : List UInt8 → Option (List UInt16)
  | [] => some []
  | a :: l =>
    if a.toNat < 0x80 then (readUnits l).map (a.toNat.toUInt16 :: ·)
    else match l with
      | [] => none
      | b :: l =>
        if a.toNat / 0x20 = 6 then
          if continues b then (readUnits l).map
            ((a.toNat % 0x20 * 0x40 + b.toNat % 0x40).toUInt16 :: ·) else none
        else match l with
          | [] => none
          | c :: l =>
            if a.toNat / 0x10 = 14 ∧ continues b ∧ continues c then
              (readUnits l).map (((a.toNat % 0x10 * 0x40 + b.toNat % 0x40) * 0x40 +
                c.toNat % 0x40).toUInt16 :: ·)
            else none

/-- A text that is too long is refused. -/
def writeUTF (s : List UInt16) : Option (List UInt8) :=
  let raw := s.flatMap unitBytes
  if raw.length < 65536 then some (bytes 2 raw.length ++ raw) else none

def readUTF (l : List UInt8) : Option (List UInt16 × List UInt8) := do
  let (n, l) ← read 2 l
  if n ≤ l.length then (readUnits (l.take n)).map fun s => (s, l.drop n) else none

theorem continues_low {n : ℕ} (h : n < 0x40) : continues (0x80 + n).toUInt8 = true := by
  unfold continues
  rw [UInt8.toNat_ofNat_of_lt' (show _ < 256 by omega), decide_eq_true_eq]
  omega

theorem readUnits_unitBytes (c : UInt16) (l : List UInt8) :
    readUnits (unitBytes c ++ l) = (readUnits l).map (c :: ·) := by
  have hc : c.toNat < 65536 := c.toNat_lt
  have hback : ∀ n, n = c.toNat → n.toUInt16 = c := by
    rintro n rfl
    simp
  unfold unitBytes
  dsimp only
  split
  · rename_i h
    have ha : c.toNat.toUInt8.toNat = c.toNat := UInt8.toNat_ofNat_of_lt' (show _ < 256 by omega)
    rw [List.singleton_append, readUnits.eq_def]
    dsimp only
    rw [ha, if_pos h.2, hback _ rfl]
  split
  · rename_i h1 h
    have ha : (0xC0 + c.toNat / 0x40).toUInt8.toNat = 0xC0 + c.toNat / 0x40 :=
      UInt8.toNat_ofNat_of_lt' (show _ < 256 by omega)
    have hb : (0x80 + c.toNat % 0x40).toUInt8.toNat = 0x80 + c.toNat % 0x40 :=
      UInt8.toNat_ofNat_of_lt' (show _ < 256 by omega)
    have hcont : continues (0x80 + c.toNat % 0x40).toUInt8 = true := continues_low (by omega)
    simp only [List.cons_append, List.nil_append]
    rw [readUnits.eq_def]
    dsimp only
    rw [ha, if_neg (by omega)]
    rw [if_pos (by omega), if_pos hcont, hb, hback]
    omega
  · rename_i h1 h
    have ha : (0xE0 + c.toNat / 0x1000).toUInt8.toNat = 0xE0 + c.toNat / 0x1000 :=
      UInt8.toNat_ofNat_of_lt' (show _ < 256 by omega)
    have hb : (0x80 + c.toNat / 0x40 % 0x40).toUInt8.toNat = 0x80 + c.toNat / 0x40 % 0x40 :=
      UInt8.toNat_ofNat_of_lt' (show _ < 256 by omega)
    have hd : (0x80 + c.toNat % 0x40).toUInt8.toNat = 0x80 + c.toNat % 0x40 :=
      UInt8.toNat_ofNat_of_lt' (show _ < 256 by omega)
    have hcontb : continues (0x80 + c.toNat / 0x40 % 0x40).toUInt8 = true :=
      continues_low (by omega)
    have hcontd : continues (0x80 + c.toNat % 0x40).toUInt8 = true := continues_low (by omega)
    simp only [List.cons_append, List.nil_append]
    rw [readUnits.eq_def]
    dsimp only
    rw [ha, if_neg (by omega)]
    rw [if_neg (by omega), if_pos ⟨by omega, hcontb, hcontd⟩, hb, hd, hback]
    omega

theorem readUnits_flatMap (s : List UInt16) : readUnits (s.flatMap unitBytes) = some s := by
  induction s with
  | nil => rfl
  | cons c s ih => rw [List.flatMap_cons, readUnits_unitBytes, ih, Option.map_some]

/-- **A text is read back**, whatever its units are. -/
theorem readUTF_writeUTF {s : List UInt16} {raw : List UInt8} (h : writeUTF s = some raw)
    (rest : List UInt8) :
    readUTF (raw ++ rest) = some (s, rest) := by
  unfold writeUTF at h
  dsimp only at h
  split at h
  · rename_i hlen
    obtain rfl := Option.some.inj h
    unfold readUTF
    rw [List.append_assoc, read_bytes (by omega), Option.bind_eq_bind, Option.bind_some]
    dsimp only
    have hle : (s.flatMap unitBytes).length ≤ (s.flatMap unitBytes ++ rest).length := by
      rw [List.length_append]
      omega
    rw [if_pos hle, List.take_left, List.drop_left, readUnits_flatMap, Option.map_some]
  · cases h

/-! ## Characters -/

def writeChars (s : List UInt16) : List UInt8 := s.flatMap fun c => bytes 2 c.toNat

def readChars : ℕ → List UInt8 → Option (List UInt16 × List UInt8)
  | 0, l => some ([], l)
  | n + 1, l => do
    let (c, l) ← read 2 l
    let (s, l) ← readChars n l
    pure (c.toUInt16 :: s, l)

theorem length_writeChars (s : List UInt16) : (writeChars s).length = 2 * s.length := by
  unfold writeChars
  induction s with
  | nil => rfl
  | cons c s ih =>
    rw [List.flatMap_cons, List.length_append, length_bytes, ih, List.length_cons]
    omega

theorem readChars_writeChars (s : List UInt16) (rest : List UInt8) :
    readChars s.length (writeChars s ++ rest) = some (s, rest) := by
  induction s with
  | nil => rfl
  | cons c s ih =>
    have hc : c.toNat < 256 ^ 2 := c.toNat_lt
    have hsplit : writeChars (c :: s) ++ rest = bytes 2 c.toNat ++ (writeChars s ++ rest) := by
      unfold writeChars
      rw [List.flatMap_cons, List.append_assoc]
    rw [List.length_cons, readChars, hsplit, read_bytes hc, Option.bind_eq_bind, Option.bind_some]
    dsimp only
    rw [ih]
    simp

/-- Units of one byte. -/
theorem writeUTF_ascii {s : List UInt16} (hs : ∀ c ∈ s, 0 < c.toNat ∧ c.toNat < 0x80)
    (hlen : s.length < 65536) :
    ∃ raw, writeUTF s = some raw ∧ raw.length = 2 + s.length := by
  have hraw : (s.flatMap unitBytes).length = s.length := by
    clear hlen
    induction s with
    | nil => rfl
    | cons c s ih =>
      have hone : unitBytes c = [c.toNat.toUInt8] := if_pos (hs c List.mem_cons_self)
      rw [List.flatMap_cons, List.length_append, hone, ih fun d hd => hs d (List.mem_cons_of_mem _ hd),
        List.length_singleton, List.length_cons, Nat.add_comm]
  refine ⟨_, if_pos (by omega), ?_⟩
  rw [List.length_append, length_bytes, hraw]

end DataStream

end Libjadx
