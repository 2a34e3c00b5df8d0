import Mathlib.Data.List.Count
import Mathlib.Data.Int.Order.Basic
import Mathlib.Tactic.Ring

/-!
# Matching brackets

In any list with two kinds of elements that open and close: how deep the brackets are nested after a
part of the list, and which element closes what an earlier one opens. An element has at most one
that closes it (`Matching.unique`).
-/

namespace Libjadx

namespace Brackets

variable {α : Type}

/-- The elements of a list from `i` until `j`. -/
def segment (l : List α) (i j : ℕ) : List α := (l.take j).drop i

/-- The first such element of a list is at `i`. -/
def First (a : α) (l : List α) (i : ℕ) : Prop := l[i]? = some a ∧ ∀ k < i, l[k]? ≠ some a

theorem First.unique {a : α} {l : List α} {i j : ℕ} (h : First a l i) (h' : First a l j) :
    i = j := by
  rcases Nat.lt_trichotomy i j with hlt | heq | hlt
  · exact absurd h.1 (h'.2 i hlt)
  · exact heq
  · exact absurd h'.1 (h.2 j hlt)

theorem segment_self (l : List α) (i : ℕ) :
    segment l i i = [] := List.drop_eq_nil_of_le (List.length_take_le _ _)

theorem segment_succ {a : α} {l : List α} {i j : ℕ} (hij : i ≤ j) (h : l[j]? = some a) :
    segment l i (j + 1) = segment l i j ++ [a] := by
  obtain ⟨hj, rfl⟩ := List.getElem?_eq_some_iff.1 h
  rw [segment, segment, List.take_add_one, h, Option.toList_some,
    List.drop_append_of_le_length (by rw [List.length_take]; omega)]

/-- The first behind a place is unique. -/
theorem eq_of_first_behind {P : ℕ → Prop} {h i j : ℕ} (hi : h < i) (hPi : P i)
    (hfirst : ∀ k, h < k → k < i → ¬P k)
    (hj : h < j) (hPj : P j) (hfirst' : ∀ k, h < k → k < j → ¬P k) : i = j := by
  rcases Nat.lt_trichotomy i j with hlt | heq | hlt
  · exact absurd hPi (hfirst' i hi hlt)
  · exact heq
  · exact absurd hPj (hfirst j hj hlt)

variable [DecidableEq α]

/-- How many more open than close. -/
def depth (opening closing : α) (l : List α) : ℤ := (l.count opening : ℤ) - l.count closing

/-- The element at `j` closes what the one at `i` opens: no shorter part from `i` on is closed. -/
structure Matching (opening closing : α) (l : List α) (i j : ℕ) : Prop where
  le : i ≤ j
  opened : l[i]? = some opening
  inside : ∀ k, i ≤ k → k < j → 0 < depth opening closing (segment l i (k + 1))
  closed : depth opening closing (segment l i (j + 1)) = 0

variable {opening closing : α} {l : List α} {i j : ℕ}

theorem Matching.unique {j' : ℕ} (h : Matching opening closing l i j)
    (h' : Matching opening closing l i j') : j = j' := by
  rcases Nat.lt_trichotomy j j' with hlt | heq | hlt
  · exact absurd h.closed (h'.inside j h.le hlt).ne'
  · exact heq
  · exact absurd h'.closed (h.inside j' h'.le hlt).ne'

@[simp] theorem depth_nil : depth opening closing [] = 0 := by
  simp [depth]

theorem depth_append (l l' : List α) :
    depth opening closing (l ++ l') = depth opening closing l + depth opening closing l' := by
  unfold depth
  rw [List.count_append, List.count_append]
  push_cast
  ring

theorem depth_opening (hne : opening ≠ closing) : depth opening closing [opening] = 1 := by
  rw [depth, List.count_singleton_self, List.count_singleton, beq_false_of_ne hne]
  rfl

theorem depth_closing (hne : opening ≠ closing) : depth opening closing [closing] = -1 := by
  rw [depth, List.count_singleton_self, List.count_singleton, beq_false_of_ne hne.symm]
  rfl

theorem depth_other {a : α} (ho : a ≠ opening) (hc : a ≠ closing) :
    depth opening closing [a] = 0 := by
  rw [depth, List.count_singleton, List.count_singleton, beq_false_of_ne ho, beq_false_of_ne hc]
  rfl

theorem depth_segment_succ (opening closing : α) {a : α} (hij : i ≤ j) (h : l[j]? = some a) :
    depth opening closing (segment l i (j + 1)) = depth opening closing
      (segment l i j) + depth opening closing [a] := by
  rw [segment_succ hij h, depth_append]

/-- What opens at `i` is not closed before `n`. -/
structure Unclosed (opening closing : α) (l : List α) (i n : ℕ) : Prop where
  lt : i < n
  opened : l[i]? = some opening
  inside : ∀ k, i ≤ k → k < n → 0 < depth opening closing (segment l i (k + 1))

variable {n : ℕ}

theorem depth_opened (opening closing : α) (hne : opening ≠ closing) (h : l[i]? = some opening) :
    depth opening closing (segment l i (i + 1)) = 1 := by
  rw [depth_segment_succ _ _ le_rfl h, segment_self, depth_nil, depth_opening hne, zero_add]

theorem Unclosed.start (hne : opening ≠ closing) (h : l[i]? = some opening) :
    Unclosed opening closing l i (i + 1) := by
  refine ⟨Nat.lt_succ_self i, h, fun k hik hk => ?_⟩
  obtain rfl : k = i := by omega
  rw [depth_opened _ _ hne h]
  exact Int.one_pos

theorem Unclosed.next {a : α} (h : Unclosed opening closing l i n) (ha : l[n]? = some a)
    (hpos : 0 < depth opening closing (segment l i n) + depth opening closing [a]) :
    Unclosed opening closing l i (n + 1) := by
  refine ⟨Nat.lt_succ_of_lt h.lt, h.opened, fun k hik hk => ?_⟩
  rcases Nat.lt_succ_iff_lt_or_eq.1 hk with hk | rfl
  · exact h.inside k hik hk
  · rw [depth_segment_succ _ _ hik ha]
    exact hpos

theorem Unclosed.matching {a : α} (h : Unclosed opening closing l i n) (ha : l[n]? = some a)
    (hzero : depth opening closing (segment l i n) + depth opening closing [a] = 0) :
    Matching opening closing l i n :=
  ⟨h.lt.le, h.opened, h.inside, by rw [depth_segment_succ _ _ h.lt.le ha, hzero]⟩

theorem Unclosed.depth_pos (h : Unclosed opening closing l i n) :
    0 < depth opening closing (segment l i n) := by
  have hlast := h.inside (n - 1) (by have := h.lt; omega) (by have := h.lt; omega)
  rwa [Nat.sub_add_cancel (by have := h.lt; omega)] at hlast

/-- Other elements leave it unclosed. -/
theorem Unclosed.pass (h : Unclosed opening closing l i n) {m : ℕ} (hnm : n ≤ m)
    (hpass : ∀ k, n ≤ k → k < m → ∃ a, l[k]? = some a ∧ a ≠ opening ∧ a ≠ closing) :
    Unclosed opening closing l i m ∧ depth opening closing (segment l i m) = depth opening closing
      (segment l i n) := by
  induction m, hnm using Nat.le_induction with
  | base => exact ⟨h, rfl⟩
  | succ m hnm ih =>
    obtain ⟨hm, hsame⟩ := ih fun k hk hkm => hpass k hk (Nat.lt_succ_of_lt hkm)
    obtain ⟨a, ha, ho, hc⟩ := hpass m hnm (Nat.lt_succ_self m)
    have hzero : depth opening closing [a] = 0 := depth_other ho hc
    exact ⟨hm.next ha (by rw [hzero, add_zero]; exact hm.depth_pos),
      by rw [depth_segment_succ _ _ hm.lt.le ha, hzero, add_zero, hsame]⟩

end Brackets

end Libjadx
