import Mathlib.Data.List.TakeWhile
import Mathlib.Tactic.IntervalCases
import Libjadx.Lib.Base64
import Libjadx.Spec.Bytes

/-!
# Cursors that are signed

The cursors of the catalog, of the search and of the references are made alike: bytes and their
HMAC, both in base64url without padding, with a dot between. `sign` makes one, `verify` gives the
bytes back (`verify_sign`). What the platform computes is a parameter (`Platform`).
-/

namespace Libjadx

/-- What the platform computes; the HMAC is the one under the key of the service. -/
structure Platform where
  sha256 : List UInt8 → List UInt8
  mac : List UInt8 → List UInt8
  /-- The text of bytes that are not UTF-8. -/
  replaced : List UInt8 → JString
  /-- `Character.digit(c, 10)`. -/
  digit : JChar → Option ℕ
  sha256_length : ∀ raw, (sha256 raw).length = 32
  mac_length : ∀ raw, (mac raw).length = 32
  digit_ascii : ∀ c, 48 ≤ c.toNat → c.toNat ≤ 57 → digit c = some (c.toNat - 48)

namespace Platform

theorem ascii_digit (c : JChar) (h : 48 ≤ c.toNat) (h' : c.toNat ≤ 57) :
    (if 48 ≤ c.toNat ∧ c.toNat ≤ 57 then some (c.toNat - 48) else none) = some (c.toNat - 48) :=
  if_pos ⟨h, h'⟩

/-- A platform with this digest; its codes are zeros. -/
def ofDigest (sha256 : List UInt8 → List UInt8) (h : ∀ raw, (sha256 raw).length = 32) :
    Platform where
  sha256 := sha256
  mac _ := List.replicate 32 0
  replaced _ := []
  digit c := if 48 ≤ c.toNat ∧ c.toNat ≤ 57 then some (c.toNat - 48) else none
  sha256_length := h
  mac_length _ := List.length_replicate
  digit_ascii := ascii_digit

/-- All digests are zeros. -/
def zeros : Platform := ofDigest (fun _ => List.replicate 32 0) fun _ => List.length_replicate

/-- A digest that tells a few texts apart: by their length, and by their last bytes. -/
def byLength : Platform :=
  ofDigest (fun raw => ((raw.length / 256).toUInt8 :: raw.length.toUInt8 :: raw.reverse ++
    List.replicate 32 0).take 32)
    fun raw => by simp

variable (p : Platform)

/-- `new String(raw, UTF_8)`. -/
def newString (raw : List UInt8) : JString :=
  match Utf8.decode raw with
  | some points => ofCodePoints points
  | none => p.replaced raw

/-- `Long.parseLong` and `Integer.parseInt`, for a number of bits. -/
def parse (bits : ℕ) (s : JString) : Option ℤ :=
  let signed := s.head? = some (chr '-') ∨ s.head? = some (chr '+')
  let body := if signed then s.tail else s
  if body = [] then none
  else (body.mapM p.digit).bind fun digits =>
    let n : ℤ := (digits.foldl (fun n d => n * 10 + d) 0 : ℕ)
    let n := if s.head? = some (chr '-') then -n else n
    if -2 ^ (bits - 1) ≤ n ∧ n < 2 ^ (bits - 1) then some n else none

end Platform

/-! ## Base64url -/

/-- The alphabet. -/
def symbol (n : ℕ) : JChar :=
  if n < 26 then (65 + n).toUInt16
  else if n < 52 then (97 + (n - 26)).toUInt16
  else if n < 62 then (48 + (n - 52)).toUInt16
  else if n = 62 then chr '-'
  else chr '_'

def sextet (c : JChar) : Option ℕ :=
  if 65 ≤ c.toNat ∧ c.toNat ≤ 90 then some (c.toNat - 65)
  else if 97 ≤ c.toNat ∧ c.toNat ≤ 122 then some (c.toNat - 97 + 26)
  else if 48 ≤ c.toNat ∧ c.toNat ≤ 57 then some (c.toNat - 48 + 52)
  else if c = chr '-' then some 62
  else if c = chr '_' then some 63
  else none

/-- `Base64.getUrlEncoder().withoutPadding().encodeToString(raw)`. -/
def encodeToString (raw : List UInt8) : JString := (Base64.sextets raw).map symbol

/-- `Base64.getUrlDecoder().decode(s)`: padding may be there, but then all of it. -/
def decodeUrl (s : JString) : Option (List UInt8) :=
  let body := s.takeWhile (· ≠ chr '=')
  let padding := s.drop body.length
  if padding = [] ∨ padding = str "=" ∧ body.length % 4 = 3 ∨ padding = str "==" ∧
      body.length % 4 = 2 then
    (body.mapM sextet).bind Base64.ofSextets
  else none

/-! ## Tokens -/

/-- The smallest page. -/
theorem one_valid : 1 ≤ 1 ∧ 1 ≤ 100 := by decide

theorem ten_valid : 1 ≤ 10 ∧ 10 ≤ 100 := by decide

/-- Nothing is expected of the state. -/
theorem nothing_expected : (none : Option JString).isSome = (none : Option ℤ).isSome ∧
    ∀ n ∈ (none : Option ℤ), 0 ≤ n :=
  ⟨rfl, nofun⟩

/-- `s.split(c, -1)`. -/
def splitAll (c : JChar) : JString → List JString
  | [] => [[]]
  | d :: s => if d = c then [] :: splitAll c s
    else match splitAll c s with
      | [] => [[d]]
      | part :: parts => (d :: part) :: parts

/-- The token of signed bytes. -/
def sign (mac : List UInt8 → List UInt8) (raw : List UInt8) : JString :=
  encodeToString raw ++ chr '.' :: encodeToString (mac raw)

/-- The bytes of a token, once its signature is checked. -/
def verify (mac : List UInt8 → List UInt8) (token : JString) : Option (List UInt8) :=
  match splitAll (chr '.') token with
  | [payload, signature] => do
    let raw ← decodeUrl payload
    let signature ← decodeUrl signature
    if signature.length = 32 ∧ signature = mac raw then pure raw else none
  | _ => none

/-! ## The alphabet -/

theorem sextet_symbol {n : ℕ} (h : n < 64) : sextet (symbol n) = some n := by
  have hval : ∀ k, k < 65536 → k.toUInt16.toNat = k := by
    intro k hk
    have hmod : k.toUInt16.toNat = k % 65536 := by simp
    omega
  unfold symbol
  split
  · rw [sextet, hval _ (by omega), if_pos (by omega)]
    congr 1
    omega
  split
  · rw [sextet, hval _ (by omega), if_neg (by omega), if_pos (by omega)]
    congr 1
    omega
  split
  · rw [sextet, hval _ (by omega), if_neg (by omega), if_neg (by omega), if_pos (by omega)]
    congr 1
    omega
  split
  · rename_i h62
    rw [h62]
    decide
  · have h63 : n = 63 := by omega
    rw [h63]
    decide

/-- A symbol is neither the padding nor the dot. -/
theorem sextet_none {c : JChar} (h : c = chr '=' ∨ c = chr '.') : sextet c = none := by
  rcases h with rfl | rfl <;> decide

/-- The units of a base64url text. -/
theorem mem_encodeToString {raw : List UInt8} {c : JChar} (h : c ∈ encodeToString raw) :
    c ≠ chr '=' ∧ c ≠ chr '.' := by
  obtain ⟨n, hn, rfl⟩ := List.mem_map.1 h
  have hs := sextet_symbol (Base64.sextets_lt raw n hn)
  constructor <;> intro he
  · rw [sextet_none (.inl he)] at hs
    simp at hs
  · rw [sextet_none (.inr he)] at hs
    simp at hs

theorem length_encodeToString (raw : List UInt8) :
    (encodeToString raw).length = (4 * raw.length + 2) / 3 := by
  unfold encodeToString
  rw [List.length_map, Base64.length_sextets]

theorem plain_encodeToString (raw : List UInt8) : Plain (encodeToString raw) := by
  intro c hc
  obtain ⟨n, hn, rfl⟩ := List.mem_map.1 hc
  have hlt := Base64.sextets_lt raw n hn
  interval_cases n <;> decide

/-- **The bytes are given back.** -/
theorem decodeUrl_encodeToString (raw : List UInt8) :
    decodeUrl (encodeToString raw) = some raw := by
  have hbody : (encodeToString raw).takeWhile (· ≠ chr '=') = encodeToString raw := by
    rw [List.takeWhile_eq_self_iff]
    intro c hc
    simpa using (mem_encodeToString hc).1
  have hvalues : (encodeToString raw).mapM sextet = some (Base64.sextets raw) := by
    unfold encodeToString
    have hlt := Base64.sextets_lt raw
    generalize Base64.sextets raw = groups at hlt
    induction groups with
    | nil => rfl
    | cons n l ih =>
      rw [List.map_cons, List.mapM_cons, sextet_symbol (hlt n List.mem_cons_self),
        ih fun m hm => hlt m (List.mem_cons_of_mem _ hm)]
      rfl
  unfold decodeUrl
  simp only [hbody, List.drop_length, true_or, if_true, hvalues, Option.bind_some]
  exact Base64.ofSextets_sextets raw

/-! ## Splitting -/

theorem splitAll_plain {c : JChar} {s : JString} (h : c ∉ s) : splitAll c s = [s] := by
  induction s with
  | nil => rfl
  | cons d s ih =>
    have hd : d ≠ c := fun he => h (he ▸ List.mem_cons_self)
    rw [splitAll, if_neg hd, ih fun hc => h (List.mem_cons_of_mem _ hc)]

/-- The first part ends at the first separator. -/
theorem splitAll_append {c : JChar} {s : JString} (h : c ∉ s) (t : JString) :
    splitAll c (s ++ c :: t) = s :: splitAll c t := by
  induction s with
  | nil => rw [List.nil_append, splitAll, if_pos rfl]
  | cons d s ih =>
    have hd : d ≠ c := fun he => h (he ▸ List.mem_cons_self)
    rw [List.cons_append, splitAll, if_neg hd, ih fun hc => h (List.mem_cons_of_mem _ hc)]

/-- **What was signed is verified.** -/
theorem verify_sign {mac : List UInt8 → List UInt8} {raw : List UInt8} (h : (mac raw).length = 32) :
    verify mac (sign mac raw) = some raw := by
  have hdot : ∀ l, chr '.' ∉ encodeToString l := fun l hc => (mem_encodeToString hc).2 rfl
  unfold verify sign
  rw [splitAll_append (hdot raw), splitAll_plain (hdot _)]
  dsimp only
  rw [decodeUrl_encodeToString, decodeUrl_encodeToString]
  simp [h]

theorem length_sign {mac : List UInt8 → List UInt8} {raw : List UInt8} (h : (mac raw).length = 32) :
    (sign mac raw).length = (4 * raw.length + 2) / 3 + 44 := by
  unfold sign
  rw [List.length_append, List.length_cons, length_encodeToString, length_encodeToString, h]

/-! ## Texts and numbers -/

namespace Platform

variable (p : Platform)

/-- What UTF-8 keeps of a text. -/
theorem newString_getBytes (s : JString) :
    p.newString (getBytes s) = ofCodePoints (codePoints s) := by
  unfold newString
  rw [decode_getBytes]

/-- **Digits are read as their number.** -/
theorem mapM_digits (n : ℕ) :
    (digits n).mapM p.digit = some ((digits n).map fun c => c.toNat - 48) := by
  have hall : ∀ c ∈ digits n, p.digit c = some (c.toNat - 48) := by
    intro c hc
    have hrange := mem_digits hc
    exact p.digit_ascii c hrange.1 hrange.2
  generalize digits n = l at hall
  induction l with
  | nil => rfl
  | cons c l ih =>
    rw [List.mapM_cons, hall c List.mem_cons_self, ih fun d hd => hall d (List.mem_cons_of_mem _ hd)]
    rfl

/-- **A number is read back.** -/
theorem parse_decimal {bits : ℕ} {n : ℤ} (hlow : -2 ^ (bits - 1) ≤ n) (hhigh : n < 2 ^ (bits - 1)) :
    p.parse bits (decimal n) = some n := by
  have hvalue : ((digits n.natAbs).map fun c => c.toNat - 48).foldl (fun n d => n * 10 + d) 0 =
      n.natAbs := by
    rw [List.foldl_map]
    exact digits_value _
  by_cases hneg : n < 0
  · have htext : decimal n = chr '-' :: digits n.natAbs := if_pos hneg
    have habs : -(n.natAbs : ℤ) = n := by omega
    unfold parse
    rw [htext]
    simp only [List.head?_cons, true_or, if_true, List.tail_cons, digits_ne_nil, if_false,
      mapM_digits, Option.bind_some,
      hvalue, habs]
    rw [if_pos ⟨hlow, hhigh⟩]
  · have htext : decimal n = digits n.natAbs := if_neg hneg
    have habs : (n.natAbs : ℤ) = n := by omega
    have hsign : ∀ c, c = chr '-' ∨ c = chr '+' → (digits n.natAbs).head? ≠ some c := by
      intro c hc hh
      have hrange := mem_digits (List.mem_of_head? hh)
      rcases hc with rfl | rfl <;> exact absurd hrange (by decide)
    unfold parse
    rw [htext]
    simp only [hsign _ (.inl rfl), hsign _ (.inr rfl), or_self, if_false, digits_ne_nil,
      mapM_digits, Option.bind_some,
      hvalue, habs]
    rw [if_pos ⟨hlow, hhigh⟩]

end Platform

end Libjadx
