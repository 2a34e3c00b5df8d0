import Mathlib.Data.List.Basic
import Mathlib.Order.Lattice

/-!
# Scans for occurrences

A scan looks for the next occurrence of something of a fixed length, and goes on behind it. What it
finds are the leftmost occurrences: those that no leftmost one before overlaps. `complete_iff` says
when a test of the occurrences afterwards misses none that passes.
-/

namespace Libjadx.Scan

/-- An occurrence that no leftmost occurrence before it overlaps. -/
def Leftmost (occ : ℕ → Prop) (length : ℕ) (c : ℕ) : Prop :=
  occ c ∧ ∀ b, b < c → Leftmost occ length b → b + length ≤ c
termination_by c

variable {occ good : ℕ → Prop} {length : ℕ}

theorem leftmost_iff {c : ℕ} : Leftmost occ length c ↔ occ c ∧ ∀ b, b < c → Leftmost occ length b →
    b + length ≤ c := by
  rw [Leftmost]

theorem Leftmost.occurs {c : ℕ} (h : Leftmost occ length c) : occ c := (leftmost_iff.1 h).1

/-- Two leftmost occurrences do not overlap. -/
theorem Leftmost.apart {b c : ℕ} (h : Leftmost occ length c) (hb : Leftmost occ length b)
    (hlt : b < c) :
    b + length ≤ c := (leftmost_iff.1 h).2 b hlt hb

/-- Every occurrence is a leftmost one, or overlaps a leftmost one before it. -/
theorem leftmost_or_covered {v : ℕ} (h : occ v) :
    Leftmost occ length v ∨ ∃ c, Leftmost occ length c ∧ c < v ∧ v < c + length := by
  by_cases hv : Leftmost occ length v
  · exact .inl hv
  · rw [leftmost_iff, not_and] at hv
    obtain ⟨c, hc⟩ := not_forall.1 (hv h)
    obtain ⟨hlt, hc⟩ := Classical.not_imp.1 hc
    obtain ⟨hleft, hin⟩ := Classical.not_imp.1 hc
    exact .inr ⟨c, hleft, hlt, not_le.1 hin⟩

/-- **When a test of the leftmost occurrences misses nothing**: every good occurrence is leftmost or
overlaps a good leftmost one before it, if and only if none lies in a leftmost one that is not good.
-/
theorem complete_iff :
    (∀ v, occ v → good v → Leftmost occ length v ∨
      ∃ c, Leftmost occ length c ∧ good c ∧ c < v ∧ v < c + length) ↔
    ∀ c, Leftmost occ length c → ¬ good c → ∀ v, c < v → v < c + length → occ v → ¬ good v := by
  constructor
  · intro h c hc hbad v hlt hin hv hgood
    obtain hleft | ⟨b, hb, hbgood, hbv, hvb⟩ := h v hv hgood
    · have := hleft.apart hc hlt
      omega
    · -- two leftmost occurrences cover the same position
      obtain hbc | rfl | hcb := lt_trichotomy b c
      · have := hc.apart hb hbc
        omega
      · exact hbad hbgood
      · have := hb.apart hc hcb
        omega
  · intro h v hv hgood
    refine (leftmost_or_covered hv).imp_right fun ⟨c, hc, hlt, hin⟩ => ⟨c, hc, ?_, hlt, hin⟩
    by_contra hbad
    exact h c hc hbad v hlt hin hv hgood

/-- Ranges of occurrences one behind the other are those of the leftmost ones, where every
occurrence is one of them or starts within one. -/
theorem mem_iff_leftmost {ranges : List (ℕ × ℕ)} (hlength : 0 < length)
    (hfound : ∀ r ∈ ranges, r.2 = r.1 + length ∧ occ r.1)
    (hapart : ranges.Pairwise fun r s => r.2 ≤ s.1)
    (hcover : ∀ v, occ v → (v, v + length) ∈ ranges ∨ ∃ r ∈ ranges, r.1 < v ∧ v < r.2) {c : ℕ} :
    (c, c + length) ∈ ranges ↔ Leftmost occ length c := by
  -- by strong induction on the place, as `Leftmost` itself
  induction c using Nat.strong_induction_on with
  | _ c ih =>
    constructor
    · intro hc
      refine leftmost_iff.2 ⟨(hfound _ hc).2, fun b hb hleft => ?_⟩
      have hsplit : (b, b + length) = (c, c + length) ∨ b + length ≤ c ∨ c + length ≤ b :=
        List.Pairwise.forall_of_forall_of_flip (R := fun r s : ℕ × ℕ => r = s ∨
          r.2 ≤ s.1 ∨ s.2 ≤ r.1)
          (fun _ _ => .inl rfl) (hapart.imp fun h => .inr (.inl h)) (hapart.imp fun h =>
            .inr (.inr h)) ((ih b hb).2 hleft) hc
      obtain heq | h | h := hsplit
      · have := congrArg Prod.fst heq
        omega
      · exact h
      · omega
    · intro hleft
      obtain hc | ⟨r, hr, hlt, hin⟩ := hcover c hleft.occurs
      · exact hc
      · obtain ⟨start, stop⟩ := r
        obtain ⟨hstop, -⟩ := hfound _ hr
        obtain rfl : stop = start + length := hstop
        have hend : start + length ≤ c := hleft.apart ((ih start hlt).1 hr) hlt
        have hin' : c < start + length := hin
        omega

/-! ## The loop -/

/-- The loop: find the next occurrence, and go on behind it, for a number of rounds. -/
def scan (next : ℕ → Option ℕ) (length : ℕ) : ℕ → ℕ → List ℕ
  | 0, _ => []
  | rounds + 1, start =>
    match next start with
    | none => []
    | some i => i :: scan next length rounds (i + length)

/-- What finds the next occurrence, before a bound. -/
structure Finds (occ : ℕ → Prop) (bound : ℕ) (next : ℕ → Option ℕ) : Prop where
  found : ∀ start i, next start = some i → start ≤ i ∧ occ i ∧ ∀ j, start ≤ j → j < i → ¬ occ j
  none : ∀ start, next start = none → ∀ j, start ≤ j → ¬ occ j
  bounded : ∀ i, occ i → i < bound

variable {next : ℕ → Option ℕ} {bound : ℕ}

/-- From a place that no leftmost occurrence before it reaches over, the loop finds the leftmost
ones. -/
theorem mem_scan (hnext : Finds occ bound next) (hlength : 0 < length) {c : ℕ} :
    ∀ {rounds start : ℕ}, bound ≤ start + rounds → (∀ b, b < start → Leftmost occ length b →
      b + length ≤ start) →
      (c ∈ scan next length rounds start ↔ Leftmost occ length c ∧ start ≤ c) := by
  intro rounds
  induction rounds with
  | zero =>
    intro start hbound _
    refine iff_of_false (List.not_mem_nil) fun ⟨hc, hle⟩ => ?_
    have := hnext.bounded c hc.occurs
    omega
  | succ rounds ih =>
    intro start hbound hreach
    unfold scan
    cases hn : next start with
    | none =>
      refine iff_of_false (List.not_mem_nil) fun ⟨hc, hle⟩ => hnext.none start hn c hle hc.occurs
    | some i =>
      obtain ⟨hle, hocc, hfirst⟩ := hnext.found start i hn
      have hleft : Leftmost occ length i := by
        refine leftmost_iff.2 ⟨hocc, fun b hb hbl => ?_⟩
        by_cases hbs : b < start
        · exact (hreach b hbs hbl).trans hle
        · exact absurd hbl.occurs (hfirst b (not_lt.1 hbs) hb)
      have hreach' : ∀ b, b < i + length → Leftmost occ length b → b + length ≤ i + length := by
        intro b hb hbl
        obtain hbi | rfl | hib := lt_trichotomy b i
        · have := hleft.apart hbl hbi
          omega
        · exact le_refl _
        · have := hbl.apart hleft hib
          omega
      rw [List.mem_cons, ih (by omega) hreach']
      constructor
      · rintro (rfl | ⟨hc, hlec⟩)
        · exact ⟨hleft, hle⟩
        · exact ⟨hc, by omega⟩
      · rintro ⟨hc, hlec⟩
        obtain hci | rfl | hic := lt_trichotomy c i
        · exact absurd hc.occurs (hfirst c hlec hci)
        · exact .inl rfl
        · exact .inr ⟨hc, hc.apart hleft hic⟩

/-- The loop from the start finds the leftmost occurrences. -/
theorem mem_scan_zero (hnext : Finds occ bound next) (hlength : 0 < length) {c : ℕ} :
    c ∈ scan next length bound 0 ↔ Leftmost occ length c := by
  rw [mem_scan hnext hlength (by omega) fun b hb => absurd hb (Nat.not_lt_zero b)]
  exact and_iff_left (Nat.zero_le c)

/-- What the loop finds ascends, and does not overlap. -/
theorem scan_pairwise (hnext : Finds occ bound next) (rounds start : ℕ) :
    (scan next length rounds start).Pairwise (fun b c => b + length ≤ c) ∧
    ∀ c ∈ scan next length rounds start, start ≤ c := by
  induction rounds generalizing start with
  | zero => exact ⟨List.Pairwise.nil, fun c hc => absurd hc List.not_mem_nil⟩
  | succ rounds ih =>
    unfold scan
    cases hn : next start with
    | none => exact ⟨List.Pairwise.nil, fun c hc => absurd hc List.not_mem_nil⟩
    | some i =>
      obtain ⟨hle, -, -⟩ := hnext.found start i hn
      obtain ⟨hpair, hfrom⟩ := ih (i + length)
      refine ⟨List.pairwise_cons.2 ⟨hfrom, hpair⟩, fun c hc => ?_⟩
      obtain rfl | hc := List.mem_cons.1 hc
      · exact hle
      · have := hfrom c hc
        omega

/-- The first place from `start` on, before a bound, at which a test holds. -/
def firstFrom (p : ℕ → Bool) (bound start : ℕ) : Option ℕ :=
  (List.range' start (bound - start)).find? p

theorem finds_firstFrom {p : ℕ → Bool} (hbound : ∀ i, p i = true → i < bound) :
    Finds (fun i => p i = true) bound (firstFrom p bound) where
  found start i h := by
    unfold firstFrom at h
    obtain ⟨hp, l₁, l₂, hl, hno⟩ := List.find?_eq_some_iff_append.1 h
    have hmem : i ∈ List.range' start (bound - start) :=
      hl ▸ List.mem_append_right _ List.mem_cons_self
    have hle : start ≤ i := (List.mem_range'_1.1 hmem).1
    refine ⟨hle, hp, fun j hj hlt hpj => ?_⟩
    have hj' : j ∈ List.range' start (bound - start) := by
      rw [List.mem_range'_1]
      have := (List.mem_range'_1.1 hmem).2
      omega
    have hsorted : (l₁ ++ i :: l₂).Pairwise (· < ·) := hl ▸ List.pairwise_lt_range'
    rw [hl] at hj'
    rcases List.mem_append.1 hj' with hj₁ | hj₂
    · have := hno j hj₁
      simp [hpj] at this
    · obtain rfl | hj₂ := List.mem_cons.1 hj₂
      · exact lt_irrefl _ hlt
      · have hlater := (List.pairwise_cons.1 (List.pairwise_append.1 hsorted).2.1).1 j hj₂
        omega
  none start h j hj hp := by
    unfold firstFrom at h
    have hmem : j ∈ List.range' start (bound - start) := by
      rw [List.mem_range'_1]
      have := hbound j hp
      omega
    have hno := List.find?_eq_none.1 h j hmem
    exact hno hp
  bounded := hbound

end Libjadx.Scan
