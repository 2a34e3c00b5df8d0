import Mathlib.Data.List.AList

/-!
# Lists gathered from a map

A list that is gathered from the entries of a map depends on the order of the map. Where each group
of its elements comes from one entry, the groups do not, nor does what is left of them when only the
first of each id is kept, nor does the list once it is sorted by an order that ties only elements of
one group (`mergeSort_congr`).
-/

namespace Libjadx.MapOrder

variable {α β κ : Type}

/-! ## One entry at a time -/

/-- Elements that only one key gives are found under that key. -/
theorem flatMap_lookup {β : κ → Type} [DecidableEq κ] {m : AList β} {f : Sigma β → List α} {c : κ}
    (h : ∀ e ∈ m.entries, e.1 ≠ c → f e = []) :
    m.entries.flatMap f = ((m.lookup c).map fun b => f ⟨c, b⟩).getD [] := by
  obtain ⟨l, hl⟩ := m
  have hrest : ∀ l : List (Sigma β), (∀ e ∈ l, e.1 ≠ c → f e = []) → c ∉ l.keys →
      l.flatMap f = [] := by
    intro l h hc
    rw [List.flatMap_eq_nil_iff]
    intro e he
    exact h e he fun heq => hc (heq ▸ List.mem_keys_of_mem he)
  show l.flatMap f = ((l.dlookup c).map fun b => f ⟨c, b⟩).getD []
  induction l with
  | nil => simp
  | cons e l ih =>
    obtain ⟨a, b⟩ := e
    rw [List.nodupKeys_cons] at hl
    rw [List.flatMap_cons]
    by_cases ha : a = c
    · subst ha
      rw [List.dlookup_cons_eq, hrest l (fun e he => h e (List.mem_cons_of_mem _ he)) hl.1,
        List.append_nil]
      rfl
    · rw [List.dlookup_cons_ne l ⟨a, b⟩ (Ne.symm ha), h ⟨a, b⟩ List.mem_cons_self ha, List.nil_append]
      exact ih hl.2 fun e he => h e (List.mem_cons_of_mem _ he)

/-- **Elements that only one key gives come in the same order for every order of the map.** -/
theorem flatMap_perm {β : κ → Type} [DecidableEq κ] {m n : AList β} (hmn : m.entries.Perm n.entries)
    {f : Sigma β → List α} {c : κ} (h : ∀ e ∈ m.entries, e.1 ≠ c → f e = []) :
    m.entries.flatMap f = n.entries.flatMap f := by
  rw [flatMap_lookup h, flatMap_lookup fun e he => h e (hmn.mem_iff.2 he), AList.perm_lookup hmn]

/-! ## The first of each id -/

variable [BEq κ] {id : α → Option κ}

/-- The elements whose id was not seen. -/
def firsts {κ : Type} [BEq κ] (id : α → Option κ) : List α → List κ → List α
  | [], _ => []
  | x :: l, seen => if (id x).any seen.contains then firsts id l seen else x :: firsts id l
      ((id x).toList ++ seen)

theorem firsts_cons (x : α) (l : List α) (seen : List κ) : firsts id (x :: l) seen =
    if (id x).any seen.contains then firsts id l seen else x :: firsts id l
      ((id x).toList ++ seen) := rfl

variable [LawfulBEq κ]

/-- An id of no element may be seen or not. -/
theorem firsts_seen {l : List α} {s t : List κ} (h : ∀ x ∈ l, ∀ k, id x = some k →
    (k ∈ s ↔ k ∈ t)) :
    firsts id l s = firsts id l t := by
  induction l generalizing s t with
  | nil => rfl
  | cons x l ih =>
    have hx : (id x).any s.contains = (id x).any t.contains := by
      rcases hid : id x with _ | k
      · rfl
      · rw [Option.any_some, Option.any_some, Bool.eq_iff_iff, List.contains_iff_mem,
          List.contains_iff_mem]
        exact h x List.mem_cons_self k hid
    have hrest : firsts id l s = firsts id l t := ih fun y hy => h y (List.mem_cons_of_mem _ hy)
    have hnext : firsts id l ((id x).toList ++ s) = firsts id l ((id x).toList ++ t) := by
      refine ih fun y hy k hk => ?_
      rw [List.mem_append, List.mem_append, h y (List.mem_cons_of_mem _ hy) k hk]
    rw [firsts_cons, firsts_cons, hx, hrest, hnext]

/-- **A group with ids of its own** is kept as if it were alone. -/
theorem filter_firsts {p : α → Bool} {l : List α} (hown : ∀ x ∈ l, ∀ y ∈ l, p x = false →
    p y = true → ∀ k, id x = some k →
    id y ≠ some k) (seen : List κ) : (firsts id l seen).filter p = firsts id (l.filter p) seen := by
  induction l generalizing seen with
  | nil => rfl
  | cons x l ih =>
    have htail := ih fun y hy z hz => hown y (List.mem_cons_of_mem _ hy) z
      (List.mem_cons_of_mem _ hz)
    rw [firsts_cons]
    cases hp : p x with
    | false =>
      rw [@List.filter_cons_of_neg _ _ _ l (by simp [hp])]
      split
      · exact htail seen
      · rw [List.filter_cons_of_neg (by simp [hp]), htail]
        refine firsts_seen fun y hy k hk => ?_
        obtain ⟨hy, hpy⟩ := List.mem_filter.1 hy
        have hne : k ∉ (id x).toList := by
          intro hmem
          exact hown x List.mem_cons_self y (List.mem_cons_of_mem _ hy) hp hpy k
            (Option.mem_toList.1 hmem) hk
        rw [List.mem_append, or_iff_right hne]
    | true =>
      rw [@List.filter_cons_of_pos _ _ _ l hp, firsts_cons]
      split
      · exact htail seen
      · rw [List.filter_cons_of_pos hp, htail]

/-! ## Stable sorting -/

/-- Neither comes before the other. -/
def tied (le : α → α → Bool) (a b : α) : Bool := le a b && le b a

variable {le : α → α → Bool}

/-- A stable sort keeps the order of the elements that tie. -/
theorem filter_mergeSort (htrans : ∀ a b c, le a b = true → le b c = true → le a c = true)
    (htotal : ∀ a b, (le a b || le b a) = true) (l : List α) (a : α) :
    (l.mergeSort le).filter (tied le a) = l.filter (tied le a) := by
  have hties : (l.filter (tied le a)).Pairwise fun x y => le x y = true := by
    rw [List.pairwise_filter]
    refine List.pairwise_of_forall fun x y hx hy => ?_
    exact htrans x a y (Bool.and_eq_true_iff.1 hx).2 (Bool.and_eq_true_iff.1 hy).1
  have hsub : (l.filter (tied le a)).Sublist ((l.mergeSort le).filter (tied le a)) := by
    have h := (List.sublist_mergeSort htrans htotal hties List.filter_sublist).filter (tied le a)
    simp only [List.filter_filter, Bool.and_self] at h
    exact h
  exact (hsub.eq_of_length ((List.mergeSort_perm l le).filter _).length_eq.symm).symm

/-- Sorted lists with the same ties are the same. -/
theorem eq_of_ties {l m : List α} (hrefl : ∀ a, le a a = true)
    (hl : l.Pairwise fun x y => le x y = true)
    (hm : m.Pairwise fun x y => le x y = true)
    (h : ∀ a, l.filter (tied le a) = m.filter (tied le a)) : l = m := by
  have hself : ∀ a, tied le a a = true := fun a => by unfold tied; rw [hrefl]; rfl
  have hmem : ∀ {l m : List α}, (∀ a, l.filter (tied le a) = m.filter (tied le a)) →
      ∀ x ∈ l, x ∈ m := by
    intro l m h x hx
    have hin : x ∈ l.filter (tied le x) := List.mem_filter.2 ⟨hx, hself x⟩
    rw [h x] at hin
    exact (List.mem_filter.1 hin).1
  induction l generalizing m with
  | nil =>
    cases m with
    | nil => rfl
    | cons y m => exact absurd (hmem (fun a => (h a).symm) y List.mem_cons_self) List.not_mem_nil
  | cons x l ih =>
    cases m with
    | nil => exact absurd (hmem h x List.mem_cons_self) List.not_mem_nil
    | cons y m =>
      rw [List.pairwise_cons] at hl hm
      -- each head is in the other list, so the heads tie, and each is the first of its ties
      have hyx : le y x = true := by
        obtain rfl | hx := List.mem_cons.1 (hmem h x List.mem_cons_self)
        · exact hrefl x
        · exact hm.1 x hx
      have hxy : le x y = true := by
        obtain rfl | hy := List.mem_cons.1 (hmem (fun a => (h a).symm) y List.mem_cons_self)
        · exact hrefl y
        · exact hl.1 y hy
      have hheads := h x
      rw [List.filter_cons_of_pos (hself x),
        List.filter_cons_of_pos (by unfold tied; rw [hxy, hyx]; rfl)] at hheads
      obtain rfl := (List.cons.inj hheads).1
      refine congrArg (x :: ·) (ih hl.2 hm.2 fun a => ?_)
      have ha := h a
      rw [List.filter_cons, List.filter_cons] at ha
      split at ha
      · exact (List.cons.inj ha).2
      · exact ha

/-- **A stable sort sees no more of a list than the order of its ties.** -/
theorem mergeSort_congr (htrans : ∀ a b c, le a b = true → le b c = true → le a c = true)
    (htotal : ∀ a b, (le a b || le b a) = true) {l m : List α}
    (h : ∀ a, l.filter (tied le a) = m.filter (tied le a)) :
    l.mergeSort le = m.mergeSort le := by
  have hrefl : ∀ a, le a a = true := fun a => by
    have ha := htotal a a
    rwa [Bool.or_self] at ha
  refine eq_of_ties hrefl (List.pairwise_mergeSort htrans htotal l)
    (List.pairwise_mergeSort htrans htotal m) fun a => ?_
  rw [filter_mergeSort htrans htotal, filter_mergeSort htrans htotal, h a]

/-- Lists with the same ties have the same elements. -/
theorem perm_of_ties (hrefl : ∀ a, le a a = true) {l m : List α} [DecidableEq α]
    (h : ∀ a, l.filter (tied le a) = m.filter (tied le a)) : l.Perm m := by
  have hself : ∀ a, tied le a a = true := fun a => by unfold tied; rw [hrefl]; rfl
  rw [List.perm_iff_count]
  intro a
  rw [← List.count_filter (hself a), h a, List.count_filter (hself a)]

end Libjadx.MapOrder
