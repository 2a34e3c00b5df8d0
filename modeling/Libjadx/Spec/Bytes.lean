import Libjadx.Lib.Utf8
import Libjadx.Spec.Jobs

/-!
# Bytes of a text

`getBytes` is `String.getBytes(UTF_8)`: a surrogate without its partner becomes `?`. On texts
without such surrogates it loses nothing (`getBytes_injective`).
-/

namespace Libjadx

/-- `s.getBytes(UTF_8)`. -/
def getBytes (s : JString) : List UInt8 := Utf8.encode (codePoints s)

/-- Every surrogate has its partner. -/
def Paired : JString → Bool
  | [] => true
  | [c] => !(isHighSurrogate c || isLowSurrogate c)
  | c :: d :: s =>
    if isHighSurrogate c && isLowSurrogate d then Paired s
    else !(isHighSurrogate c || isLowSurrogate c) && Paired (d :: s)

/-- The text of code points. -/
def ofCodePoints (l : List ℕ) : JString := l.flatMap toChars

/-- Decimal digits. -/
def digits (n : ℕ) : JString := (Nat.toDigits 10 n).map fun c => c.toNat.toUInt16

/-- `Long.toString(n)`. -/
def decimal (n : ℤ) : JString := if n < 0 then chr '-' :: digits n.natAbs else digits n.natAbs

/-- `String.valueOf(flag)`. -/
def flag (b : Bool) : JString := str (toString b)

/-- `toString()` of a list. -/
def listText (texts : List JString) : JString :=
  chr '[' :: (texts.intersperse (str ", ")).flatten ++ [chr ']']

variable {s t : JString} {c d : JChar}

/-! ## Surrogates -/

theorem isHighSurrogate_iff : isHighSurrogate c = true ↔ 0xD800 ≤ c.toNat ∧ c.toNat ≤ 0xDBFF := by
  simp [isHighSurrogate, UInt16.le_iff_toNat_le]

theorem isLowSurrogate_iff : isLowSurrogate c = true ↔ 0xDC00 ≤ c.toNat ∧ c.toNat ≤ 0xDFFF := by
  simp [isLowSurrogate, UInt16.le_iff_toNat_le]

/-- The surrogates. -/
theorem surrogate_iff : (isHighSurrogate c || isLowSurrogate c) = true ↔ 0xD800 ≤ c.toNat ∧
    c.toNat ≤ 0xDFFF := by
  rw [Bool.or_eq_true, isHighSurrogate_iff, isLowSurrogate_iff]
  omega

theorem scalar_toNat (h : (isHighSurrogate c || isLowSurrogate c) = false) :
    Utf8.Scalar c.toNat := by
  have hno : ¬(0xD800 ≤ c.toNat ∧ c.toNat ≤ 0xDFFF) := by
    rw [← surrogate_iff, h]
    simp
  have hlt := c.toNat_lt
  unfold Utf8.Scalar
  omega

/-- The code point of a pair. -/
theorem pair_range (hc : isHighSurrogate c = true) (hd : isLowSurrogate d = true) :
    0x10000 ≤ 0x10000 + (c.toNat - 0xD800) * 0x400 + (d.toNat - 0xDC00) ∧
      0x10000 + (c.toNat - 0xD800) * 0x400 + (d.toNat - 0xDC00) < 0x110000 := by
  rw [isHighSurrogate_iff] at hc
  rw [isLowSurrogate_iff] at hd
  omega

/-! ## Code points -/

theorem codePoints_scalar (s : JString) : ∀ p ∈ codePoints s, Utf8.Scalar p := by
  induction s using Paired.induct with
  | case1 => simp [codePoints]
  | case2 c =>
    intro p hp
    rw [codePoints] at hp
    split at hp
    · obtain rfl := List.mem_singleton.1 hp
      decide
    · rename_i hsur
      obtain rfl := List.mem_singleton.1 hp
      exact scalar_toNat (Bool.eq_false_iff.2 hsur)
  | case3 c d s hpair ih =>
    intro p hp
    rw [codePoints, if_pos hpair] at hp
    rw [Bool.and_eq_true] at hpair
    rcases List.mem_cons.1 hp with hp | hp
    · have hrange := pair_range hpair.1 hpair.2
      rw [← hp] at hrange
      exact .inr ⟨by omega, hrange.2⟩
    · exact ih p hp
  | case4 c d s hpair ih =>
    intro p hp
    rw [codePoints, if_neg hpair] at hp
    split at hp
    · rcases List.mem_cons.1 hp with rfl | hp
      · decide
      · exact ih p hp
    · rename_i hsur
      rcases List.mem_cons.1 hp with rfl | hp
      · exact scalar_toNat (Bool.eq_false_iff.2 hsur)
      · exact ih p hp

/-- Where the code points of a text come from. -/
theorem mem_codePoints {p : ℕ} (h : p ∈ codePoints s) :
    p = 0x3F ∨ 0x10000 ≤ p ∨ ∃ c ∈ s, p = c.toNat := by
  induction s using Paired.induct with
  | case1 => simp [codePoints] at h
  | case2 c =>
    rw [codePoints] at h
    split at h
    · exact .inl (List.mem_singleton.1 h)
    · exact .inr (.inr ⟨c, List.mem_cons_self, List.mem_singleton.1 h⟩)
  | case3 c d s hpair ih =>
    rw [codePoints, if_pos hpair] at h
    rw [Bool.and_eq_true] at hpair
    rcases List.mem_cons.1 h with h | h
    · have hrange := pair_range hpair.1 hpair.2
      rw [← h] at hrange
      exact .inr (.inl hrange.1)
    · rcases ih h with h | h | ⟨x, hx, h⟩
      · exact .inl h
      · exact .inr (.inl h)
      · exact .inr (.inr ⟨x, List.mem_cons_of_mem _ (List.mem_cons_of_mem _ hx), h⟩)
  | case4 c d s hpair ih =>
    rw [codePoints, if_neg hpair] at h
    have hrest : p ∈ codePoints (d :: s) → p = 0x3F ∨ 0x10000 ≤ p ∨
        ∃ x ∈ c :: d :: s, p = x.toNat := by
      intro hp
      rcases ih hp with h | h | ⟨x, hx, h⟩
      · exact .inl h
      · exact .inr (.inl h)
      · exact .inr (.inr ⟨x, List.mem_cons_of_mem _ hx, h⟩)
    split at h
    · rcases List.mem_cons.1 h with rfl | h
      · exact .inl rfl
      · exact hrest h
    · rcases List.mem_cons.1 h with rfl | h
      · exact .inr (.inr ⟨c, List.mem_cons_self, rfl⟩)
      · exact hrest h

/-- What a text begins with, where its surrogates are paired. -/
theorem paired_cons (hpair : ¬(isHighSurrogate c && isLowSurrogate d) = true)
    (h : Paired (c :: d :: s) = true) :
    (isHighSurrogate c || isLowSurrogate c) = false ∧ Paired (d :: s) = true := by
  rw [Paired, if_neg hpair, Bool.and_eq_true, Bool.not_eq_true'] at h
  exact h

theorem codePoints_cons (c : JChar) (hsur : (isHighSurrogate c || isLowSurrogate c) = false)
    (s : JString) :
    codePoints (c :: s) = c.toNat :: codePoints s ∧ Paired (c :: s) = Paired s := by
  obtain ⟨hhigh, hlow⟩ := Bool.or_eq_false_iff.1 hsur
  cases s with
  | nil => simp [codePoints, Paired, hhigh, hlow]
  | cons d s => simp [codePoints, Paired, hhigh, hlow]

/-- No text reaches into a unit that is no surrogate. -/
theorem codePoints_plain (s : JString) (hc : (isHighSurrogate c || isLowSurrogate c) = false)
    (t : JString) :
    codePoints (s ++ c :: t) = codePoints s ++ codePoints (c :: t) := by
  have hlow : isLowSurrogate c = false := (Bool.or_eq_false_iff.1 hc).2
  induction s using Paired.induct with
  | case1 => rfl
  | case2 x =>
    have hpair : ¬(isHighSurrogate x && isLowSurrogate c) = true := by simp [hlow]
    have hfront : codePoints (x :: c :: t) = (if isHighSurrogate x || isLowSurrogate x then 0x3F
        else x.toNat) ::
        codePoints (c :: t) := by
      rw [codePoints, if_neg hpair]
      split <;> rfl
    show codePoints (x :: c :: t) = _
    rw [hfront, codePoints]
    split <;> rfl
  | case3 x y s hpair ih =>
    rw [List.cons_append, List.cons_append, codePoints, if_pos hpair, codePoints, if_pos hpair, ih]
    rfl
  | case4 x y s hpair ih =>
    rw [List.cons_append, List.cons_append, codePoints, if_neg hpair, codePoints, if_neg hpair,
      ← List.cons_append, ih]
    split <;> rfl

/-- A text whose surrogates are paired does not reach into what follows. -/
theorem paired_append (h : Paired s = true) (t : JString) :
    codePoints (s ++ t) = codePoints s ++ codePoints t ∧ Paired (s ++ t) = Paired t := by
  induction s using Paired.induct with
  | case1 => exact ⟨rfl, rfl⟩
  | case2 c =>
    rw [Paired, Bool.not_eq_true'] at h
    rw [(codePoints_cons c h []).1]
    exact codePoints_cons c h t
  | case3 c d s hpair ih =>
    rw [Paired, if_pos hpair] at h
    show codePoints (c :: d :: (s ++ t)) = _ ∧ Paired (c :: d :: (s ++ t)) = _
    rw [codePoints, if_pos hpair, codePoints, if_pos hpair, Paired, if_pos hpair,
      (ih h).1, (ih h).2]
    exact ⟨rfl, rfl⟩
  | case4 c d s hpair ih =>
    obtain ⟨hsur, hrest⟩ := paired_cons hpair h
    have hc := codePoints_cons c hsur
    show codePoints (c :: (d :: s ++ t)) = _ ∧ Paired (c :: (d :: s ++ t)) = _
    rw [(hc _).1, (hc _).1, (hc _).2, (ih hrest).1, (ih hrest).2]
    exact ⟨rfl, rfl⟩

/-- Without surrogates every unit is a code point. -/
theorem plain_text (h : ∀ c ∈ s, c.toNat < 0xD800) :
    Paired s = true ∧ codePoints s = s.map UInt16.toNat := by
  induction s with
  | nil => exact ⟨rfl, rfl⟩
  | cons c s ih =>
    have hc := h c List.mem_cons_self
    obtain ⟨hpaired, hpoints⟩ := ih fun d hd => h d (List.mem_cons_of_mem _ hd)
    have hsur : (isHighSurrogate c || isLowSurrogate c) = false := by
      rw [← Bool.not_eq_true, surrogate_iff]
      omega
    have hc := codePoints_cons c hsur s
    rw [hc.1, hc.2, hpoints]
    exact ⟨hpaired, rfl⟩

/-! ## Back to text -/

theorem toChars_pair (hc : isHighSurrogate c = true) (hd : isLowSurrogate d = true) :
    toChars (0x10000 + (c.toNat - 0xD800) * 0x400 + (d.toNat - 0xDC00)) = [c, d] := by
  have hrange := pair_range hc hd
  rw [isHighSurrogate_iff] at hc
  rw [isLowSurrogate_iff] at hd
  have hhigh : 0xD800 + (0x10000 + (c.toNat - 0xD800) * 0x400 + (d.toNat - 0xDC00) - 0x10000) /
    0x400 = c.toNat := by omega
  have hlow : 0xDC00 + (0x10000 + (c.toNat - 0xD800) * 0x400 + (d.toNat - 0xDC00) - 0x10000) %
    0x400 = d.toNat := by omega
  rw [toChars, if_neg (by omega), hhigh, hlow]
  simp

theorem toChars_unit (c : JChar) : toChars c.toNat = [c] := by
  have hlt := c.toNat_lt
  rw [toChars, if_pos (by omega)]
  simp

/-- **The code points of a text whose surrogates are paired give it back.** -/
theorem ofCodePoints_codePoints (h : Paired s = true) : ofCodePoints (codePoints s) = s := by
  unfold ofCodePoints
  induction s using Paired.induct with
  | case1 => rfl
  | case2 c =>
    rw [Paired, Bool.not_eq_true'] at h
    rw [(codePoints_cons c h []).1]
    exact (List.append_nil _).trans (toChars_unit c)
  | case3 c d s hpair ih =>
    rw [Paired, if_pos hpair] at h
    rw [codePoints, if_pos hpair, List.flatMap_cons, ih h]
    rw [Bool.and_eq_true] at hpair
    rw [toChars_pair hpair.1 hpair.2]
    rfl
  | case4 c d s hpair ih =>
    obtain ⟨hsur, hrest⟩ := paired_cons hpair h
    rw [(codePoints_cons c hsur _).1, List.flatMap_cons, ih hrest, toChars_unit]
    rfl

theorem getBytes_injective (hs : Paired s = true) (ht : Paired t = true)
    (h : getBytes s = getBytes t) : s = t := by
  have hpoints : codePoints s = codePoints t := Utf8.encode_injective (codePoints_scalar s)
    (codePoints_scalar t) h
  rw [← ofCodePoints_codePoints hs, ← ofCodePoints_codePoints ht, hpoints]

theorem getBytes_append (h : Paired s = true) (t : JString) :
    getBytes (s ++ t) = getBytes s ++ getBytes t := by
  unfold getBytes
  rw [(paired_append h t).1, Utf8.encode_append]

/-- What the bytes decode to. -/
theorem decode_getBytes (s : JString) : Utf8.decode (getBytes s) = some (codePoints s) :=
  Utf8.decode_encode (codePoints_scalar s)

/-! ## Decimal numbers -/

/-- The digits of a number. -/
theorem mem_digits {n : ℕ} (h : c ∈ digits n) : 48 ≤ c.toNat ∧ c.toNat ≤ 57 := by
  obtain ⟨x, hx, rfl⟩ := List.mem_map.1 h
  have hdigit := Nat.isDigit_of_mem_toDigits (by omega) (by omega) hx
  rw [Char.isDigit, Bool.and_eq_true, decide_eq_true_eq, decide_eq_true_eq] at hdigit
  have hlow : 48 ≤ x.toNat := hdigit.1
  have hhigh : x.toNat ≤ 57 := hdigit.2
  have hval : x.toNat.toUInt16.toNat = x.toNat % 65536 := by simp
  omega

theorem digits_ne_nil (n : ℕ) : digits n ≠ [] := by
  unfold digits
  simp

/-- The digits are read back. -/
theorem digits_value (n : ℕ) : (digits n).foldl (fun k c => k * 10 + (c.toNat - 48)) 0 = n := by
  have h : Nat.ofDigitChars 10 (Nat.toDigits 10 n) 0 = n := Nat.ofDigitChars_ten_toDigits
  have hfold : ∀ (l : List Char) (k : ℕ), (∀ x ∈ l, x.isDigit) →
      (l.map fun x => x.toNat.toUInt16).foldl (fun k (c : JChar) => k * 10 + (c.toNat - 48)) k =
          Nat.ofDigitChars 10 l k := by
    intro l
    induction l with
    | nil => intro k _; simp
    | cons x l ih =>
      intro k hl
      have hdigit := hl x List.mem_cons_self
      rw [Char.isDigit, Bool.and_eq_true, decide_eq_true_eq, decide_eq_true_eq] at hdigit
      have hhigh : x.toNat ≤ 57 := hdigit.2
      have hval : x.toNat.toUInt16.toNat = x.toNat := by
        have hmod : x.toNat.toUInt16.toNat = x.toNat % 65536 := by simp
        omega
      rw [List.map_cons, List.foldl_cons, ih _ fun y hy => hl y (List.mem_cons_of_mem _ hy),
        Nat.ofDigitChars_cons, hval,
        Nat.mul_comm]
      rfl
  unfold digits
  rw [hfold _ _ fun x hx => Nat.isDigit_of_mem_toDigits (by omega) (by omega) hx, h]

theorem digits_injective {m n : ℕ} (h : digits m = digits n) : m = n := by
  rw [← digits_value m, ← digits_value n, h]

theorem digits_length {n k : ℕ} (hk : 0 < k) : (digits n).length ≤ k ↔ n < 10 ^ k := by
  unfold digits
  rw [List.length_map]
  exact Nat.length_toDigits_le_iff (by omega) hk

theorem digits_plain {n : ℕ} : ∀ c ∈ digits n, c.toNat < 0xD800 := by
  intro c hc
  have hrange := mem_digits hc
  omega

/-- A number is written with digits and a sign. -/
theorem mem_decimal {n : ℤ} (h : c ∈ decimal n) : c = chr '-' ∨ 48 ≤ c.toNat ∧ c.toNat ≤ 57 := by
  unfold decimal at h
  split at h
  · rcases List.mem_cons.1 h with rfl | h
    · exact .inl rfl
    · exact .inr (mem_digits h)
  · exact .inr (mem_digits h)

theorem decimal_injective {m n : ℤ} (h : decimal m = decimal n) : m = n := by
  have hsign : ∀ k : ℕ, ∀ l, digits k ≠ chr '-' :: l := by
    intro k l hk
    have hin : chr '-' ∈ digits k := hk ▸ List.mem_cons_self
    exact absurd (mem_digits hin) (by decide)
  unfold decimal at h
  split at h <;> split at h
  · have habs := digits_injective (List.cons.inj h).2
    omega
  · exact absurd h.symm (hsign _ _)
  · exact absurd h (hsign _ _)
  · have habs := digits_injective h
    omega

/-! ## What UTF-8 keeps -/

/-- What comes back of a text that went through UTF-8. -/
def carried (s : JString) : JString := ofCodePoints (codePoints s)

theorem carried_paired (h : Paired s = true) (t : JString) : carried (s ++ t) = s ++ carried t := by
  have hs := ofCodePoints_codePoints h
  unfold carried
  rw [(paired_append h t).1]
  unfold ofCodePoints at hs ⊢
  rw [List.flatMap_append, hs]

/-- How a text comes back, from its front. -/
theorem carried_cons (hpair : ¬(isHighSurrogate c && isLowSurrogate d) = true) (s : JString) :
    carried (c :: d :: s) = (if isHighSurrogate c || isLowSurrogate c then 0x3F else c) ::
      carried (d :: s) := by
  unfold carried ofCodePoints
  rw [codePoints, if_neg hpair]
  split
  · rfl
  · rw [List.flatMap_cons, toChars_unit]
    rfl

theorem carried_pair (hpair : (isHighSurrogate c && isLowSurrogate d) = true) (s : JString) :
    carried (c :: d :: s) = c :: d :: carried s := by
  unfold carried ofCodePoints
  rw [codePoints, if_pos hpair, List.flatMap_cons]
  rw [Bool.and_eq_true] at hpair
  rw [toChars_pair hpair.1 hpair.2]
  rfl

theorem carried_single (c : JChar) :
    carried [c] = [if isHighSurrogate c || isLowSurrogate c then 0x3F else c] := by
  unfold carried ofCodePoints
  rw [codePoints]
  split
  · rfl
  · exact (List.append_nil _).trans (toChars_unit c)

/-- What follows a unit that is no surrogate comes back by itself. -/
theorem carried_plain (s : JString) (hc : (isHighSurrogate c || isLowSurrogate c) = false)
    (t : JString) :
    carried (s ++ c :: t) = carried s ++ carried (c :: t) := by
  unfold carried ofCodePoints
  rw [codePoints_plain s hc, List.flatMap_append]

theorem mem_carried {x : JChar} (h : x ∈ carried s) : x = 0x3F ∨ x ∈ s := by
  have hone : ∀ {y : JChar}, (x = if isHighSurrogate y || isLowSurrogate y then 0x3F else y) →
      x = 0x3F ∨ x = y := by
    intro y hy
    split at hy
    · exact .inl hy
    · exact .inr hy
  induction s using Paired.induct with
  | case1 => simp [carried, ofCodePoints, codePoints] at h
  | case2 y =>
    rw [carried_single] at h
    exact (hone (List.mem_singleton.1 h)).imp_right fun (he : x = y) =>
      he ▸ List.mem_singleton_self _
  | case3 y z s hpair ih =>
    rw [carried_pair hpair] at h
    rcases List.mem_cons.1 h with rfl | h
    · exact .inr List.mem_cons_self
    rcases List.mem_cons.1 h with rfl | h
    · exact .inr (List.mem_cons_of_mem _ List.mem_cons_self)
    · exact (ih h).imp_right fun hs => List.mem_cons_of_mem _ (List.mem_cons_of_mem _ hs)
  | case4 y z s hpair ih =>
    rw [carried_cons hpair] at h
    rcases List.mem_cons.1 h with h | h
    · exact (hone h).imp_right fun (he : x = y) => he ▸ List.mem_cons_self
    · exact (ih h).imp_right fun hs => List.mem_cons_of_mem _ hs

/-- **A text with a surrogate that has no partner comes back smaller.** -/
theorem carried_lt (h : Paired s = false) : carried s < s := by
  have hmark : ∀ {x : JChar}, (isHighSurrogate x || isLowSurrogate x) = true →
      (0x3F : JChar) < x := by
    intro x hx
    rw [surrogate_iff] at hx
    rw [UInt16.lt_iff_toNat_lt]
    show 63 < x.toNat
    omega
  induction s using Paired.induct with
  | case1 => simp [Paired] at h
  | case2 x =>
    rw [Paired, Bool.not_eq_false'] at h
    rw [carried_single, if_pos h]
    exact .rel (hmark h)
  | case3 x y s hpair ih =>
    rw [Paired, if_pos hpair] at h
    rw [carried_pair hpair]
    exact .cons (.cons (ih h))
  | case4 x y s hpair ih =>
    rw [carried_cons hpair]
    by_cases hsur : (isHighSurrogate x || isLowSurrogate x) = true
    · rw [if_pos hsur]
      exact .rel (hmark hsur)
    · rw [if_neg hsur]
      rw [Paired, if_neg hpair, Bool.not_eq_true _ |>.mp hsur, Bool.not_false, Bool.true_and] at h
      exact .cons (ih h)

/-! ## ASCII -/

/-- A text of ASCII units other than NUL. -/
def Plain (s : JString) : Prop := ∀ c ∈ s, 0 < c.toNat ∧ c.toNat < 0x80

/-- A bounded check is one run over the characters, whichever instances decide it. -/
theorem forall_of_all {p : UInt16 → Prop} [DecidablePred p] {s : JString}
    (h : (s.all fun c => decide (p c)) = true) :
    ∀ c ∈ s, p c := by
  intro c hc
  have hall := List.all_eq_true.1 h c hc
  exact of_decide_eq_true hall

theorem plain_one : Plain (str "1") := forall_of_all (by decide)

theorem Plain.paired {s : JString} (h : Plain s) : Paired s = true := by
  refine (plain_text fun c hc => ?_).1
  have hrange := h c hc
  omega

theorem Plain.no_nul {s : JString} (h : Plain s) : 0 ∉ s := fun hc => absurd (h 0 hc).1 (by decide)

theorem Plain.length {s : JString} (h : Plain s) : (getBytes s).length = s.length := by
  have hpoints := (plain_text (s := s) fun c hc => by have hrange := h c hc; omega).2
  unfold getBytes
  rw [hpoints]
  clear hpoints
  induction s with
  | nil => rfl
  | cons c s ih =>
    have hc := h c List.mem_cons_self
    have hone : (Utf8.bytes c.toNat).length = 1 := by
      rw [Utf8.bytes, if_pos hc.2]
      rfl
    rw [List.map_cons, Utf8.encode_cons, List.length_append, hone, ih fun d hd =>
      h d (List.mem_cons_of_mem _ hd),
      List.length_cons]
    omega

theorem Plain.carried {s : JString} (h : Plain s) :
    carried s = s := ofCodePoints_codePoints h.paired

theorem plain_decimal (n : ℤ) : Plain (decimal n) := by
  intro c hc
  rcases mem_decimal hc with rfl | hrange
  · decide
  · omega

/-- The text of a UUID. -/
def isUuid (s : JString) : Prop := s.length = 36 ∧ ∀ c ∈ s, c = chr '-' ∨ 48 ≤ c.toNat ∧
    c.toNat ≤ 57 ∨ 97 ≤ c.toNat ∧ c.toNat ≤ 102

def someUuid : JString := str "00000000-0000-4000-8000-000000000000"

theorem isUuid_someUuid : isUuid someUuid := ⟨by decide, forall_of_all (by decide)⟩

theorem plain_uuid {s : JString} (h : isUuid s) : Plain s := by
  intro c hc
  rcases h.2 c hc with rfl | hrange | hrange
  · decide
  · omega
  · omega

end Libjadx
