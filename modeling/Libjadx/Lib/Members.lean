import Mathlib.Data.List.Nodup

/-!
# Objects of named members

An object is the list of its members in the order in which they came in. Writing a name that is
there replaces the value where it stands; a new name goes last. `merge` writes the members of one
object over another, each with a rule that sees what is there; `handOut` hands the entries of a list
out, each at most once.
-/

namespace Libjadx

namespace Members

variable {κ α : Type} [DecidableEq κ]

/-- The value of a name. -/
def get (name : κ) : List (κ × α) → Option α
  | [] => none
  | (n, v) :: o => if n = name then some v else get name o

def add (name : κ) (value : α) : List (κ × α) → List (κ × α)
  | [] => [(name, value)]
  | (n, v) :: o => if n = name then (n, value) :: o else (n, v) :: add name value o

theorem get_cons (name n : κ) (v : α) (o : List (κ × α)) :
    get name ((n, v) :: o) = if n = name then some v else get name o := rfl

variable {name n : κ} {v w : α} {o p : List (κ × α)}

theorem get_append : get name (o ++ p) = (get name o).or (get name p) := by
  induction o with
  | nil => rfl
  | cons e o ih =>
    obtain ⟨n, v⟩ := e
    rw [List.cons_append, get_cons, get_cons, ih]
    split
    · rfl
    · rfl

theorem get_eq_none (h : name ∉ o.map Prod.fst) : get name o = none := by
  induction o with
  | nil => rfl
  | cons e o ih =>
    rw [List.map_cons, List.mem_cons, not_or] at h
    rw [get_cons, if_neg (Ne.symm h.1), ih h.2]

@[simp] theorem get_add_self : get name (add name v o) = some v := by
  induction o with
  | nil =>
    rw [add, get_cons, if_pos rfl]
  | cons e o ih =>
    obtain ⟨n, w⟩ := e
    rw [add]
    split
    · rw [get_cons, if_pos ‹_›]
    · rw [get_cons, if_neg ‹_›, ih]

theorem get_add_of_ne (h : n ≠ name) : get name (add n v o) = get name o := by
  induction o with
  | nil =>
    rw [add, get_cons, if_neg h]
  | cons e o ih =>
    obtain ⟨m, w⟩ := e
    rw [add]
    split
    · subst_vars
      rw [get_cons, get_cons, if_neg h, if_neg h]
    · rw [get_cons, get_cons, ih]

/-- Writing what is there changes nothing. -/
theorem add_get (h : get name o = some v) : add name v o = o := by
  induction o with
  | nil => cases h
  | cons e o ih =>
    obtain ⟨n, w⟩ := e
    rw [get_cons] at h
    rw [add]
    split at h
    · rw [if_pos ‹_›, Option.some.inj h]
    · rw [if_neg ‹_›, ih h]

theorem add_of_notMem (h : name ∉ o.map Prod.fst) : add name v o = o ++ [(name, v)] := by
  induction o with
  | nil => rfl
  | cons e o ih =>
    rw [List.map_cons, List.mem_cons, not_or] at h
    rw [add, if_neg (Ne.symm h.1), ih h.2, List.cons_append]

/-! ## Writing an object over another -/

/-- Each member of `new` is written over `old`; what is written may depend on what is there. -/
def merge (f : κ → Option α → α → α) (old new : List (κ × α)) : List (κ × α) :=
  new.foldl (fun o e => add e.1 (f e.1 (get e.1 o) e.2) o) old

variable {f : κ → Option α → α → α} {old new : List (κ × α)}

theorem merge_cons (e : κ × α) :
    merge f old (e :: new) = merge f (add e.1 (f e.1 (get e.1 old) e.2) old) new := rfl

theorem get_merge (hnew : (new.map Prod.fst).Nodup) (name : κ) :
    get name (merge f old new) = match get name new with
      | some v => some (f name (get name old) v)
      | none => get name old := by
  induction new generalizing old with
  | nil => rfl
  | cons e new ih =>
    obtain ⟨n, v⟩ := e
    rw [List.map_cons, List.nodup_cons] at hnew
    rw [merge_cons, ih hnew.2, get_cons]
    by_cases hn : n = name
    · subst hn
      rw [get_eq_none hnew.1, if_pos rfl]
      exact get_add_self
    · rw [if_neg hn, get_add_of_ne hn]

/-- Over nothing an object is written as it is. -/
theorem merge_nil (hf : ∀ name v, f name none v = v) (hnew : (new.map Prod.fst).Nodup) :
    merge f [] new = new := by
  have happend : ∀ l o : List (κ × α), ((o ++ l).map Prod.fst).Nodup → merge f o l = o ++ l := by
    intro l
    induction l with
    | nil => exact fun o _ => (List.append_nil o).symm
    | cons e l ih =>
      intro o ho
      have hout : e.1 ∉ o.map Prod.fst := by
        rw [List.map_append, List.nodup_append] at ho
        exact fun hin => ho.2.2 _ hin _ (List.mem_map_of_mem List.mem_cons_self) rfl
      rw [merge_cons, get_eq_none hout, hf, add_of_notMem hout, ih _ (by simpa using ho),
        List.append_assoc]
      rfl
  exact happend new [] (by simpa using hnew)

theorem get_of_mem {l : List (κ × α)} (hl : (l.map Prod.fst).Nodup) {e : κ × α} (he : e ∈ l) :
    get e.1 l = some e.2 := by
  induction l with
  | nil => cases he
  | cons d l ih =>
    rw [List.map_cons, List.nodup_cons] at hl
    rcases List.mem_cons.1 he with rfl | he
    · exact if_pos rfl
    · have hne : d.1 ≠ e.1 := fun heq => hl.1 (heq ▸ List.mem_map_of_mem he)
      rw [get_cons, if_neg hne, ih hl.2 he]

/-- Nothing changes where what would be written is there. -/
theorem merge_eq_self (h : ∀ e ∈ new, get e.1 old = some (f e.1 (get e.1 old) e.2)) :
    merge f old new = old := by
  induction new with
  | nil => rfl
  | cons e new ih =>
    rw [merge_cons, add_get (h e List.mem_cons_self)]
    exact ih fun e' he' => h e' (List.mem_cons_of_mem _ he')

/-- A second time changes nothing, where the rule writes again what it wrote. -/
theorem merge_merge (hf : ∀ e ∈ new, ∀ x, f e.1 (some (f e.1 x e.2)) e.2 = f e.1 x e.2)
    (hnew : (new.map Prod.fst).Nodup) :
    merge f (merge f old new) new = merge f old new := by
  refine merge_eq_self fun e he => ?_
  rw [get_merge hnew, get_of_mem hnew he]
  dsimp only
  rw [hf e he]

end Members

/-! ## Handing out entries -/

section Handing

variable {α β γ : Type} {p q : α → Bool} {l : List α}

/-- A search does not see that an entry it passes over is gone. -/
theorem find?_eraseP (h : ∀ a ∈ l, p a = true → q a = false) :
    (l.eraseP q).find? p = l.find? p := by
  induction l with
  | nil => rfl
  | cons a l ih =>
    have hrest : ∀ b ∈ l, p b = true → q b = false := fun b hb => h b (List.mem_cons_of_mem _ hb)
    by_cases hq : q a = true
    · have hp : p a = false := by
        by_contra hp
        exact absurd hq (by rw [h a List.mem_cons_self (by simpa using hp)]; decide)
      rw [List.eraseP_cons_of_pos hq, List.find?_cons_of_neg (by simp [hp])]
    · rw [List.eraseP_cons_of_neg (by simpa using hq), List.find?_cons, List.find?_cons, ih hrest]

/-- Every `b` gets the first entry that fits it and that nobody got before. -/
def handOut (fits : β → α → Bool) (f : β → Option α → γ) : List α → List β → List γ
  | _, [] => []
  | l, b :: bs => f b (l.find? (fits b)) :: handOut fits f (l.eraseP (fits b)) bs

/-- Where no two fit the same entry, everybody gets the first that fits. -/
theorem handOut_eq {fits : β → α → Bool} {f : β → Option α → γ} {bs : List β}
    (h : bs.Pairwise fun b b' => ∀ a ∈ l, fits b' a = true → fits b a = false) :
    handOut fits f l bs = bs.map fun b => f b (l.find? (fits b)) := by
  induction bs generalizing l with
  | nil => rfl
  | cons b bs ih =>
    rw [List.pairwise_cons] at h
    have hrest : bs.Pairwise fun c c' => ∀ a ∈ l.eraseP (fits b), fits c' a = true →
        fits c a = false :=
      h.2.imp fun hpair a ha => hpair a (List.mem_of_mem_eraseP ha)
    rw [handOut, ih hrest, List.map_cons, List.cons.injEq]
    refine ⟨rfl, List.map_congr_left fun b' hb' => ?_⟩
    rw [find?_eraseP (h.1 b' hb')]

end Handing

end Libjadx
