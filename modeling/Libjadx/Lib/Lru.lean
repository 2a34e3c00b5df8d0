import Mathlib.Data.List.AList
import Mathlib.Algebra.BigOperators.Group.List.Basic
import Mathlib.Algebra.Ring.Nat

/-!
# Weighted recency tables

A table from keys to sizes whose most recently used entry comes first. Using or writing an
entry moves it to the front, so the last entry is the one to evict; `weight` is the total
size, and every operation changes it by exactly what it adds and drops.
-/

namespace Libjadx

/-- Sizes by key, the most recently used first. -/
abbrev Lru (κ : Type) := AList fun _ : κ => ℕ

namespace Lru

variable {κ : Type}

/-- The total size. -/
def weight (m : Lru κ) : ℕ := (m.entries.map Sigma.snd).sum

/-- The least recently used key. -/
def eldest (m : Lru κ) : Option κ := m.entries.getLast?.map Sigma.fst

theorem eldest_mem {k : κ} {m : Lru κ} (h : eldest m = some k) : k ∈ m := by
  unfold eldest at h
  obtain ⟨e, he, rfl⟩ := Option.map_eq_some_iff.1 h
  rw [AList.mem_keys]
  exact List.mem_map_of_mem (List.mem_of_getLast? he)

theorem eldest_none {m : Lru κ} (h : eldest m = none) : weight m = 0 := by
  have he : m.entries = [] := by simpa [eldest] using h
  simp [weight, he]

@[simp] theorem weight_empty : weight (∅ : Lru κ) = 0 := rfl

variable [DecidableEq κ]

/-- A read moves the entry to the front. -/
def touch (k : κ) (m : Lru κ) : Lru κ :=
  match m.lookup k with
  | some size => m.insert k size
  | none => m

theorem sum_kerase {k : κ} {n : ℕ} {l : List (Sigma fun _ : κ => ℕ)} (h : l.dlookup k = some n) :
    ((l.kerase k).map Sigma.snd).sum + n = (l.map Sigma.snd).sum := by
  induction l with
  | nil => simp at h
  | cons e l ih =>
    by_cases hk : k = e.1
    · obtain ⟨a, m⟩ := e
      have hka : k = a := hk
      subst hka
      have hm : m = n := by simpa using h
      have he : List.kerase k (⟨k, m⟩ :: l) = l := List.kerase_cons_eq rfl
      rw [he, List.map_cons, List.sum_cons, ← hm]
      exact Nat.add_comm _ _
    · rw [List.dlookup_cons_ne l e hk] at h
      have := ih h
      rw [List.kerase_cons_ne hk, List.map_cons, List.sum_cons, List.map_cons, List.sum_cons]
      omega

theorem weight_erase (k : κ) (m : Lru κ) : weight (m.erase k) + (m.lookup k).getD 0 = weight m := by
  cases h : m.lookup k with
  | some n => exact sum_kerase h
  | none =>
    have hk : k ∉ m.entries.keys := AList.mem_keys.not.1 (AList.lookup_eq_none.1 h)
    show ((m.entries.kerase k).map Sigma.snd).sum + 0 = _
    rw [List.kerase_of_notMem_keys hk]
    rfl

theorem weight_insert (k : κ) (n : ℕ) (m : Lru κ) :
    weight (m.insert k n) = n + weight (m.erase k) := by
  show ((m.insert k n).entries.map Sigma.snd).sum = _
  rw [AList.entries_insert]
  rfl

@[simp] theorem weight_touch (k : κ) (m : Lru κ) : weight (touch k m) = weight m := by
  unfold touch
  cases h : m.lookup k with
  | some n =>
    have := weight_erase k m
    rw [h] at this
    simp only [weight_insert]
    simp only [Option.getD_some] at this
    omega
  | none => rfl

@[simp] theorem mem_touch (k a : κ) (m : Lru κ) : a ∈ touch k m ↔ a ∈ m := by
  unfold touch
  cases h : m.lookup k with
  | some n =>
    have hk : k ∈ m := AList.lookup_isSome.1 (by simp [h])
    rw [AList.mem_insert]
    constructor
    · rintro (rfl | ha)
      · exact hk
      · exact ha
    · exact Or.inr
  | none => rfl

theorem length_erase {k : κ} {m : Lru κ} (h : k ∈ m) :
    (m.erase k).entries.length + 1 = m.entries.length := by
  have hl := congrArg List.length (AList.keys_erase k m)
  rw [List.length_erase_of_mem (AList.mem_keys.1 h)] at hl
  simp only [AList.keys, List.keys, List.length_map] at hl
  have hpos : 0 < m.entries.length := by
    have := List.length_pos_of_mem (AList.mem_keys.1 h)
    simpa only [AList.keys, List.keys, List.length_map] using this
  omega

end Lru

end Libjadx
