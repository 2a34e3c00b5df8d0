import Mathlib.Data.Nat.Bitwise
import Mathlib.Tactic.Ring

/-!
# LEB128

Little-endian numbers of seven bits a byte, with a bit that says whether another byte follows.
`loop` is the reader's loop over any source of bytes; an encoding is a list of bytes of which the
last alone is not followed (`Terminated`), and `loop_eq_some_iff` says that the loop reads
encodings, `loop_eq_none_iff` when it does not.
-/

namespace Libjadx

namespace Leb128

/-- Another byte follows. -/
def continues (b : UInt8) : Bool := b &&& 0x80 != 0

/-- The sign of a signed number is in its last byte. -/
def negative (b : UInt8) : Bool := b &&& 0x40 != 0

def payload (b : UInt8) : ℕ := (b &&& 0x7F).toNat

/-! ## Encodings -/

/-- Every byte but the last is followed. -/
def Terminated : List UInt8 → Prop
  | [] => False
  | [b] => continues b = false
  | b :: c :: l => continues b = true ∧ Terminated (c :: l)

def value : List UInt8 → ℕ
  | [] => 0
  | b :: l => payload b + 2 ^ 7 * value l

/-- The number that an encoding stands for. -/
def denotes (signed : Bool) (l : List UInt8) : ℤ :=
  if signed && l.getLast?.any negative then (value l : ℤ) - 2 ^ (7 * l.length) else value l

/-! ## The loop -/

/-- What the loop has at its end. -/
structure Taken where
  value : ℕ
  shift : ℕ
  last : UInt8
  pos : ℕ
deriving DecidableEq

/-- At most so many rounds, each with the byte at `pos`. -/
def loop (read : ℕ → Option UInt8) : ℕ → ℕ → ℕ → ℕ → Option Taken
  | 0, _, _, _ => none
  | rounds + 1, value, shift, pos =>
    match read pos with
    | none => none
    | some b =>
      if continues b then loop read rounds (value ||| payload b <<< shift) (shift + 7) (pos + 1)
      else some ⟨value ||| payload b <<< shift, shift + 7, b, pos + 1⟩

theorem payload_lt (b : UInt8) : payload b < 2 ^ 7 := by
  have h : payload b = b.toNat % 2 ^ 7 := by
    rw [payload, UInt8.toNat_and]
    exact Nat.and_two_pow_sub_one_eq_mod _ 7
  rw [h]
  exact Nat.mod_lt _ (by decide)

/-- The bits of a round are over the ones before. -/
theorem or_payload {v shift : ℕ} (h : v < 2 ^ shift) (b : UInt8) :
    v ||| payload b <<< shift = v + 2 ^ shift * payload b := by
  rw [Nat.shiftLeft_eq, Nat.or_comm, Nat.mul_comm, ← Nat.two_pow_add_eq_or_of_lt h, Nat.add_comm]

theorem or_payload_lt {v shift : ℕ} (h : v < 2 ^ shift) (b : UInt8) :
    v + 2 ^ shift * payload b < 2 ^ (shift + 7) := by
  have hb := payload_lt b
  rw [Nat.pow_add]
  calc v + 2 ^ shift * payload b < 2 ^ shift + 2 ^ shift * payload b := Nat.add_lt_add_right h _
    _ = 2 ^ shift * (payload b + 1) := by ring
    _ ≤ 2 ^ shift * 2 ^ 7 := Nat.mul_le_mul_left _ hb

/-- The source holds the bytes from `pos` on. -/
def Holds (read : ℕ → Option UInt8) (pos : ℕ) (l : List UInt8) : Prop :=
  ∀ k < l.length, read (pos + k) = l[k]?

theorem holds_cons {read : ℕ → Option UInt8} {pos : ℕ} {b : UInt8} {l : List UInt8} :
    Holds read pos (b :: l) ↔ read pos = some b ∧ Holds read (pos + 1) l := by
  constructor
  · intro h
    refine ⟨h 0 (Nat.succ_pos _), fun k hk => ?_⟩
    have hget := h (k + 1) (by rw [List.length_cons]; omega)
    rwa [List.getElem?_cons_succ, Nat.add_comm k, ← Nat.add_assoc] at hget
  · rintro ⟨hb, hl⟩ k hk
    cases k with
    | zero => exact hb
    | succ k =>
      rw [List.getElem?_cons_succ, Nat.add_comm k, ← Nat.add_assoc]
      exact hl k (by rw [List.length_cons] at hk; omega)

/-- One encoding starts at a position. -/
theorem eq_of_holds {read : ℕ → Option UInt8} {pos : ℕ} {l l' : List UInt8} (hl : Terminated l)
    (hl' : Terminated l')
    (h : Holds read pos l) (h' : Holds read pos l') : l = l' := by
  induction l generalizing pos l' with
  | nil => exact hl.elim
  | cons b l ih =>
    cases l' with
    | nil => exact hl'.elim
    | cons b' l' =>
      obtain ⟨hb, hrest⟩ := holds_cons.1 h
      obtain ⟨hb', hrest'⟩ := holds_cons.1 h'
      obtain rfl := Option.some.inj (hb.symm.trans hb')
      cases l with
      | nil =>
        cases l' with
        | nil => rfl
        | cons c' l' => exact absurd (hl.symm.trans hl'.1) (by decide)
      | cons c l =>
        cases l' with
        | nil => exact absurd (hl'.symm.trans hl.1) (by decide)
        | cons c' l' => rw [ih hl.2 hl'.2 hrest hrest']

section Loop

variable {read : ℕ → Option UInt8} {rounds v shift pos : ℕ}

theorem taken_cons (b : UInt8) (l : List UInt8) (last : UInt8) :
    Taken.mk (v + 2 ^ shift * payload b + 2 ^ (shift + 7) * value l) (shift + 7 + 7 * l.length) last
      (pos + 1 + l.length) =
      ⟨v + 2 ^ shift * value (b :: l), shift + 7 * (b :: l).length, last, pos + (b :: l).length⟩ := by
  have hvalue : v + 2 ^ shift * payload b + 2 ^ (shift + 7) * value l = v + 2 ^ shift *
      value (b :: l) := by
    rw [value, Nat.pow_add]
    ring
  rw [hvalue, List.length_cons, show shift + 7 + 7 * l.length = shift + 7 * (l.length + 1) by ring,
    show pos + 1 + l.length = pos + (l.length + 1) by ring]

/-- **The loop reads encodings**, of as many bytes as there are rounds. -/
theorem loop_eq_some_iff (h : v < 2 ^ shift) {t : Taken} : loop read rounds v shift pos = some t ↔
    ∃ l last, Terminated l ∧ l.length ≤ rounds ∧ Holds read pos l ∧ l.getLast? = some last ∧
      t = ⟨v + 2 ^ shift * value l, shift + 7 * l.length, last, pos + l.length⟩ := by
  induction rounds generalizing v shift pos with
  | zero =>
    rw [loop]
    refine ⟨(nomatch ·), ?_⟩
    rintro ⟨l, last, -, hlength, -, hlast, -⟩
    rw [List.eq_nil_of_length_eq_zero (Nat.le_zero.1 hlength)] at hlast
    cases hlast
  | succ rounds ih =>
    rw [loop]
    rcases hread : read pos with - | b
    · refine ⟨(nomatch ·), ?_⟩
      rintro ⟨l, last, hl, -, hholds, -, -⟩
      cases l with
      | nil => exact hl.elim
      | cons c l =>
        rw [(holds_cons.1 hholds).1] at hread
        cases hread
    · dsimp only
      rw [or_payload h]
      by_cases hb : continues b = true
      · rw [if_pos hb, ih (or_payload_lt h b)]
        constructor
        · rintro ⟨l, last, hl, hlength, hholds, hlast, rfl⟩
          cases l with
          | nil => exact hl.elim
          | cons c l =>
            refine ⟨b :: c :: l, last, ⟨hb, hl⟩, Nat.succ_le_succ hlength,
              holds_cons.2 ⟨hread, hholds⟩, hlast, ?_⟩
            exact taken_cons b (c :: l) last
        · rintro ⟨l, last, hl, hlength, hholds, hlast, rfl⟩
          cases l with
          | nil => exact hl.elim
          | cons b' l =>
            obtain ⟨hb', hrest⟩ := holds_cons.1 hholds
            obtain rfl := Option.some.inj (hread.symm.trans hb')
            cases l with
            | nil =>
              rw [Terminated, hb] at hl
              cases hl
            | cons c l =>
              refine ⟨c :: l, last, hl.2, Nat.le_of_succ_le_succ hlength, hrest, hlast, ?_⟩
              exact (taken_cons b (c :: l) last).symm
      · rw [if_neg hb]
        rw [Bool.not_eq_true] at hb
        constructor
        · intro heq
          obtain rfl := Option.some.inj heq
          refine ⟨[b], b, hb, Nat.succ_le_succ (Nat.zero_le _), holds_cons.2 ⟨hread, fun k hk =>
            absurd hk (Nat.not_lt_zero k)⟩, rfl, ?_⟩
          simp [value]
        · rintro ⟨l, last, hl, hlength, hholds, hlast, rfl⟩
          cases l with
          | nil => exact hl.elim
          | cons b' l =>
            obtain ⟨hb', -⟩ := holds_cons.1 hholds
            obtain rfl := Option.some.inj (hread.symm.trans hb')
            cases l with
            | nil =>
              obtain rfl := Option.some.inj hlast
              simp [value]
            | cons c l =>
              rw [Terminated, hb] at hl
              cases hl.1

/-- **The loop fails** where the bytes end before the encoding does, or all its rounds are followed.
-/
theorem loop_eq_none_iff : loop read rounds v shift pos = none ↔
    (∃ n < rounds, (∀ k < n, ∃ b, read (pos + k) = some b ∧ continues b = true) ∧
      read (pos + n) = none) ∨
      ∀ k < rounds, ∃ b, read (pos + k) = some b ∧ continues b = true := by
  induction rounds generalizing v shift pos with
  | zero =>
    rw [loop]
    exact ⟨fun _ => .inr fun k hk => absurd hk (Nat.not_lt_zero k), fun _ => rfl⟩
  | succ rounds ih =>
    have hshift : ∀ k, pos + 1 + k = pos + (k + 1) := fun k => by omega
    rw [loop]
    rcases hread : read pos with - | b
    · exact ⟨fun _ => .inl ⟨0, Nat.succ_pos _, fun k hk => absurd hk (Nat.not_lt_zero k), hread⟩,
        fun _ => rfl⟩
    · dsimp only
      by_cases hb : continues b = true
      · rw [if_pos hb, ih]
        refine or_congr ⟨?_, ?_⟩ ⟨?_, ?_⟩
        · rintro ⟨n, hn, hall, hend⟩
          refine ⟨n + 1, Nat.succ_lt_succ hn, fun k hk => ?_, by rw [← hshift]; exact hend⟩
          cases k with
          | zero => exact ⟨b, hread, hb⟩
          | succ k =>
            rw [← hshift]
            exact hall k (Nat.lt_of_succ_lt_succ hk)
        · rintro ⟨n, hn, hall, hend⟩
          cases n with
          | zero =>
            rw [Nat.add_zero, hread] at hend
            cases hend
          | succ n =>
            refine ⟨n, Nat.lt_of_succ_lt_succ hn, fun k hk => ?_, by rw [hshift]; exact hend⟩
            rw [hshift]
            exact hall (k + 1) (Nat.succ_lt_succ hk)
        · intro hall k hk
          cases k with
          | zero => exact ⟨b, hread, hb⟩
          | succ k =>
            rw [← hshift]
            exact hall k (Nat.lt_of_succ_lt_succ hk)
        · intro hall k hk
          rw [hshift]
          exact hall (k + 1) (Nat.succ_lt_succ hk)
      · rw [if_neg hb]
        refine ⟨(nomatch ·), ?_⟩
        rintro (⟨n, hn, hall, hend⟩ | hall)
        · cases n with
          | zero =>
            rw [Nat.add_zero, hread] at hend
            cases hend
          | succ n =>
            obtain ⟨c, hc, hcont⟩ := hall 0 (Nat.succ_pos _)
            obtain rfl := Option.some.inj (hread.symm.trans hc)
            exact absurd hcont hb
        · obtain ⟨c, hc, hcont⟩ := hall 0 (Nat.succ_pos _)
          obtain rfl := Option.some.inj (hread.symm.trans hc)
          exact absurd hcont hb

end Loop

end Leb128

end Libjadx
