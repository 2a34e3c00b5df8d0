import Mathlib.Logic.Relation
import Mathlib.Data.List.Basic

/-!
# Computations under a work budget

`Metered ε α` is a computation that counts its steps and stops with an error once the
count passes a limit. The structure carries the law that the limit is looked at only in
this way: a run that ends well ends the same way, at the same cost, under every larger
budget. So `m.Evals a` (enough budget gives `a`) composes like a big-step semantics
(`evals_bind`, `evals_fold_inv`, `evals_while`), and a metered algorithm is verified without
its budget.
-/

namespace Libjadx

/-- With room for `n` more steps the run returns `a` after exactly `n` steps. -/
def RunCosts {ε α : Type} (run : ℕ → ℕ → Except ε α × ℕ) (a : α) (n : ℕ) : Prop :=
  ∀ limit work, work + n ≤ limit → run limit work = (.ok a, work + n)

/-- A run is given the limit and the work done so far; it gives the outcome and the work then done.
-/
structure Metered (ε α : Type) where
  run : ℕ → ℕ → Except ε α × ℕ
  uniform : ∀ limit work a work', work ≤ limit → run limit work = (.ok a, work') →
    ∃ n, work' = work + n ∧ work' ≤ limit ∧ RunCosts run a n

namespace Metered

variable {ε α β σ : Type}

protected def pure (a : α) : Metered ε α where
  run := fun _ work => (.ok a, work)
  uniform := by
    intro limit work b work' hw h
    simp only [Prod.mk.injEq, Except.ok.injEq] at h
    obtain ⟨rfl, rfl⟩ := h
    exact ⟨0, rfl, hw, fun _ _ _ => rfl⟩

def throw (e : ε) : Metered ε α where
  run := fun _ work => (.error e, work)
  uniform := by
    intro limit work a work' _ h
    simp at h

/-- One unit of work; the error `e` past the limit. -/
def step (e : ε) : Metered ε Unit where
  run := fun limit work => if limit < work + 1 then (.error e, work + 1) else (.ok (), work + 1)
  uniform := by
    intro limit work a work' hw h
    split at h
    · simp at h
    · simp only [Prod.mk.injEq] at h
      refine ⟨1, h.2.symm, by omega, fun limit work hl => ?_⟩
      simp only [if_neg (show ¬ limit < work + 1 by omega)]

theorem runCosts_bind {m : ℕ → ℕ → Except ε α × ℕ} {f : α → ℕ → ℕ → Except ε β × ℕ} {a : α} {b : β}
    {n k : ℕ} (hm : RunCosts m a n) (hf : RunCosts (f a) b k) :
    RunCosts (fun limit work => match m limit work with
      | (.ok a, work') => f a limit work'
      | (.error e, work') => (.error e, work')) b (n + k) := by
  intro limit work h
  simp only [hm limit work (by omega)]
  rw [hf limit (work + n) (by omega), Nat.add_assoc]

protected def bind (m : Metered ε α) (f : α → Metered ε β) : Metered ε β where
  run := fun limit work => match m.run limit work with
    | (.ok a, work') => (f a).run limit work'
    | (.error e, work') => (.error e, work')
  uniform := by
    intro limit work b work' hw h
    rcases hr : m.run limit work with ⟨_ | a, w⟩
    · rw [hr] at h; simp at h
    · rw [hr] at h
      obtain ⟨n, rfl, hn, hmn⟩ := m.uniform _ _ _ _ hw hr
      obtain ⟨k, rfl, hk, hfk⟩ := (f a).uniform _ _ _ _ hn h
      exact ⟨n + k, by omega, hk, runCosts_bind hmn hfk⟩

instance : Monad (Metered ε) where
  pure := Metered.pure
  bind := Metered.bind

/-! ## Enough budget -/

def Costs (m : Metered ε α) (a : α) (n : ℕ) : Prop := RunCosts m.run a n

/-- Enough budget gives `a`. -/
def Evals (m : Metered ε α) (a : α) : Prop := ∃ n, m.Costs a n

/-- A good outcome under one budget is the value. -/
theorem evals_of_run {m : Metered ε α} {limit work work' : ℕ} {a : α} (hw : work ≤ limit)
    (h : m.run limit work = (.ok a, work')) : Evals m a := by
  obtain ⟨n, -, -, hn⟩ := m.uniform _ _ _ _ hw h
  exact ⟨n, hn⟩

theorem Costs.eq {m : Metered ε α} {a b : α} {n k : ℕ} (ha : Costs m a n) (hb : Costs m b k) :
    a = b ∧ n = k := by
  have h1 := ha (n + k) 0 (by omega)
  have h2 := hb (n + k) 0 (by omega)
  rw [h1] at h2
  simp only [Prod.mk.injEq, Except.ok.injEq] at h2
  exact ⟨h2.1, by omega⟩

/-- The value is determined. -/
theorem Evals.eq {m : Metered ε α} {a b : α} (ha : Evals m a) (hb : Evals m b) : a = b := by
  obtain ⟨n, hn⟩ := ha
  obtain ⟨k, hk⟩ := hb
  exact (hn.eq hk).1

theorem costs_pure (a : α) : Costs (pure a : Metered ε α) a 0 := fun _ _ _ => rfl

theorem costs_step (e : ε) : Costs (step e) () 1 := by
  intro limit work h
  simp only [step]
  rw [if_neg (by omega)]

theorem Costs.bind {m : Metered ε α} {f : α → Metered ε β} {a : α} {b : β} {n k : ℕ}
    (hm : Costs m a n) (hf : Costs (f a) b k) : Costs (m >>= f) b (n + k) :=
  runCosts_bind (f := fun a => (f a).run) hm hf

@[simp] theorem evals_pure {a b : α} : Evals (pure a : Metered ε α) b ↔ b = a :=
  ⟨fun h => h.eq ⟨0, costs_pure a⟩, fun h => ⟨0, h ▸ costs_pure a⟩⟩

@[simp] theorem not_evals_throw {e : ε} {a : α} : ¬ Evals (throw e : Metered ε α) a := by
  rintro ⟨n, hn⟩
  have := hn n 0 (by omega)
  simp [throw] at this

@[simp] theorem evals_step {e : ε} {u : Unit} : Evals (step e) u := ⟨1, costs_step e⟩

@[simp] theorem evals_bind {m : Metered ε α} {f : α → Metered ε β} {b : β} :
    Evals (m >>= f) b ↔ ∃ a, Evals m a ∧ Evals (f a) b := by
  constructor
  · rintro ⟨n, hn⟩
    have h := hn n 0 (by omega)
    simp only [Bind.bind, Metered.bind] at h
    rcases hr : m.run n 0 with ⟨_ | a, w⟩
    · rw [hr] at h; simp at h
    · rw [hr] at h
      obtain ⟨k, rfl, hk, hmk⟩ := m.uniform _ _ _ _ (Nat.zero_le _) hr
      exact ⟨a, ⟨k, hmk⟩, evals_of_run hk h⟩
  · rintro ⟨a, ⟨n, hn⟩, k, hk⟩
    exact ⟨n + k, hn.bind hk⟩

@[simp] theorem evals_ite {c : Prop} [Decidable c] {m m' : Metered ε α} {a : α} :
    Evals (if c then m else m') a ↔ (c → Evals m a) ∧ (¬ c → Evals m' a) := by
  split <;> simp_all

/-! ## Folds over lists -/

/-- `for (x : l) s = f(s, x)`. -/
def fold (f : σ → α → Metered ε σ) : σ → List α → Metered ε σ
  | s, [] => pure s
  | s, x :: l => f s x >>= fun s' => fold f s' l

@[simp] theorem evals_fold_nil {f : σ → α → Metered ε σ} {s s' : σ} :
    Evals (fold f s []) s' ↔ s' = s :=
  evals_pure

theorem evals_fold_cons {f : σ → α → Metered ε σ} {s s' : σ} {x : α} {l : List α} :
    Evals (fold f s (x :: l)) s' ↔ ∃ t, Evals (f s x) t ∧ Evals (fold f t l) s' :=
  evals_bind

/-- An invariant of every round is an invariant of the fold. -/
theorem evals_fold_inv {f : σ → α → Metered ε σ} (I : List α → σ → Prop)
    (hI : ∀ done x s t, I done s → Evals (f s x) t → I (done ++ [x]) t) :
    ∀ (l done : List α) (s s' : σ), I done s → Evals (fold f s l) s' → I (done ++ l) s' := by
  intro l
  induction l with
  | nil =>
    intro done s s' hs h
    rw [evals_fold_nil] at h
    simpa [h] using hs
  | cons x l ih =>
    intro done s s' hs h
    obtain ⟨t, ht, h'⟩ := evals_fold_cons.1 h
    have := ih (done ++ [x]) t s' (hI done x s t hs ht) h'
    simpa using this

/-- A fold whose rounds are total maps on a property of the elements. -/
theorem evals_fold_foldl {f : σ → α → Metered ε σ} {P : α → Prop} {g : σ → α → σ} :
    ∀ (l : List α), (∀ s, ∀ x ∈ l, ∀ t, Evals (f s x) t ↔ P x ∧ t = g s x) →
    ∀ s s', Evals (fold f s l) s' ↔ (∀ x ∈ l, P x) ∧ s' = l.foldl g s := by
  intro l
  induction l with
  | nil => intro _ s s'; simp
  | cons x l ih =>
    intro h s s'
    have hx := h s x List.mem_cons_self
    have hl := ih fun s y hy => h s y (List.mem_cons_of_mem _ hy)
    rw [evals_fold_cons, List.forall_mem_cons, List.foldl_cons]
    constructor
    · rintro ⟨t, ht, h'⟩
      obtain ⟨hp, rfl⟩ := (hx t).1 ht
      exact ⟨⟨hp, ((hl _ _).1 h').1⟩, ((hl _ _).1 h').2⟩
    · rintro ⟨⟨hp, hps⟩, hs'⟩
      exact ⟨_, (hx _).2 ⟨hp, rfl⟩, (hl _ _).2 ⟨hps, hs'⟩⟩

/-- What every round establishes about its element holds of all of them. -/
theorem evals_fold_forall {f : σ → α → Metered ε σ} {P : α → Prop}
    (hP : ∀ s x t, Evals (f s x) t → P x) :
    ∀ {l : List α} {s s' : σ}, Evals (fold f s l) s' → ∀ x ∈ l, P x := by
  intro l
  induction l with
  | nil => intro s s' _ x hx; simp at hx
  | cons x l ih =>
    intro s s' h
    obtain ⟨t, ht, h'⟩ := evals_fold_cons.1 h
    exact List.forall_mem_cons.2 ⟨hP s x t ht, ih h'⟩

/-! ## Loops -/

/-- The loop `while (cond) { step; body }` with a bound on its iterations. -/
def loop (cond : σ → Bool) (e : ε) (body : σ → Metered ε σ) : ℕ → σ → Metered ε σ
  | 0, s => if cond s then step e >>= fun _ => throw e else pure s
  | n + 1, s => if cond s then step e >>= fun _ => body s >>= loop cond e body n else pure s

variable {cond : σ → Bool} {e : ε} {body : σ → Metered ε σ}

/-- The rounds of a loop that ends. -/
inductive Loops (cond : σ → Bool) (body : σ → Metered ε σ) : σ → σ → Prop
  | done {s : σ} : cond s = false → Loops cond body s s
  | next {s t s' : σ} : cond s = true → Evals (body s) t → Loops cond body t s' →
      Loops cond body s s'

theorem Loops.costs {s s' : σ} (h : Loops cond body s s') :
    ∃ n, ∀ fuel, n ≤ fuel → Costs (loop cond e body fuel s) s' n := by
  induction h with
  | done hs =>
    refine ⟨0, fun fuel _ => ?_⟩
    cases fuel <;> simpa [loop, hs] using costs_pure _
  | next hs hb _ ih =>
    obtain ⟨k, hk⟩ := hb
    obtain ⟨n, hn⟩ := ih
    refine ⟨1 + (k + n), fun fuel hf => ?_⟩
    obtain ⟨fuel, rfl⟩ : ∃ f, fuel = f + 1 := ⟨fuel - 1, by omega⟩
    simp only [loop, hs, if_true]
    exact (costs_step e).bind (hk.bind (hn fuel (by omega)))

theorem loop_costs_done {s : σ} (hs : cond s = false) (fuel : ℕ) :
    Costs (loop cond e body fuel s) s 0 := by
  cases fuel <;> simpa [loop, hs] using costs_pure _

/-- A bounded loop that ends well has run through its rounds, at a cost the bound does not change.
-/
theorem loop_ok : ∀ (fuel : ℕ) (s s' : σ) (limit work work' : ℕ),
    work ≤ limit → (loop cond e body fuel s).run limit work = (.ok s', work') →
    Loops cond body s s' ∧ ∃ n, work' = work + n ∧ work' ≤ limit ∧
      ∀ fuel, n ≤ fuel → Costs (loop cond e body fuel s) s' n := by
  intro fuel
  induction fuel with
  | zero =>
    intro s s' limit work work' hw h
    obtain ⟨n, h1, h2, hn⟩ := Metered.uniform _ _ _ _ _ hw h
    cases hs : cond s with
    | false =>
      obtain ⟨rfl, rfl⟩ := Costs.eq hn (loop_costs_done hs 0)
      exact ⟨.done hs, 0, h1, h2, fun fuel _ => loop_costs_done hs fuel⟩
    | true =>
      have he : Evals (loop cond e body 0 s) s' := ⟨n, hn⟩
      rw [loop, hs, if_pos rfl] at he
      simp at he
  | succ fuel ih =>
    intro s s' limit work work' hw h
    cases hs : cond s with
    | false =>
      obtain ⟨n, h1, h2, hn⟩ := Metered.uniform _ _ _ _ _ hw h
      obtain ⟨rfl, rfl⟩ := Costs.eq hn (loop_costs_done hs _)
      exact ⟨.done hs, 0, h1, h2, fun fuel _ => loop_costs_done hs fuel⟩
    | true =>
      rw [loop, hs, if_pos rfl] at h
      simp only [Bind.bind, Metered.bind] at h
      rcases hr : (step e).run limit work with ⟨_ | _, w⟩
      · rw [hr] at h; simp at h
      rw [hr] at h
      obtain ⟨n, rfl, hn, hc⟩ := (step e).uniform _ _ _ _ hw hr
      obtain ⟨-, rfl⟩ := Costs.eq hc (costs_step e)
      simp only at h
      rcases hbr : (body s).run limit (work + 1) with ⟨_ | t, w⟩
      · rw [hbr] at h; simp at h
      rw [hbr] at h
      obtain ⟨k, rfl, hk, hbk⟩ := (body s).uniform _ _ _ _ hn hbr
      obtain ⟨hl, m, rfl, hm, hlm⟩ := ih t s' limit _ work' hk h
      refine ⟨.next hs ⟨k, hbk⟩ hl, 1 + (k + m), by omega, hm, fun fuel hf => ?_⟩
      obtain ⟨fuel, rfl⟩ : ∃ f, fuel = f + 1 := ⟨fuel - 1, by omega⟩
      rw [loop, hs, if_pos rfl]
      exact (costs_step e).bind (Costs.bind hbk (hlm fuel (by omega)))

/-- `while (cond) { step; body }`: each round costs a step, so the budget left bounds the rounds. -/
def while_ (cond : σ → Bool) (e : ε) (body : σ → Metered ε σ) (s : σ) : Metered ε σ where
  run := fun limit work => (loop cond e body (limit - work) s).run limit work
  uniform := by
    intro limit work s' work' hw h
    obtain ⟨-, n, h1, h2, hn⟩ := loop_ok _ s s' limit work work' hw h
    exact ⟨n, h1, h2, fun limit work hl => hn (limit - work) (by omega) limit work hl⟩

@[simp] theorem evals_while {s s' : σ} :
    Evals (while_ cond e body s) s' ↔ Loops cond body s s' := by
  constructor
  · rintro ⟨n, hn⟩
    exact (loop_ok _ s s' n 0 _ (Nat.zero_le _) (hn n 0 (by omega))).1
  · intro h
    obtain ⟨n, hn⟩ := h.costs (e := e)
    exact ⟨n, fun limit work hl => hn (limit - work) (by omega) limit work hl⟩

/-- An invariant of every round holds when the loop ends, with the condition false. -/
theorem Loops.inv {I : σ → Prop} (hI : ∀ s t, I s → cond s = true → Evals (body s) t → I t)
    {s s' : σ}
    (h : Loops cond body s s') (hs : I s) : I s' ∧ cond s' = false := by
  induction h with
  | done hc => exact ⟨hs, hc⟩
  | next hc hb _ ih => exact ih (hI _ _ hs hc hb)

/-- A loop whose invariant always allows a round, and whose measure falls in every round, ends. -/
theorem loops_total {I : σ → Prop} {r : σ → σ → Prop} (hwf : WellFounded r)
    (hI : ∀ s, I s → cond s = true → ∃ t, Evals (body s) t ∧ I t ∧ r t s) :
    ∀ s, I s → ∃ s', Loops cond body s s' := by
  intro s
  induction s using hwf.induction with
  | _ s ih =>
    intro hs
    cases hc : cond s with
    | false => exact ⟨s, .done hc⟩
    | true =>
      obtain ⟨t, ht, hti, hrel⟩ := hI s hs hc
      obtain ⟨s', h'⟩ := ih t hrel hti
      exact ⟨s', .next hc ht h'⟩

/-! ## More room elsewhere

`m.Le m'`: whatever `m` returns, `m'` returns at the same cost. Loosening a guard inside a
computation goes up in this order. -/

def Le (m m' : Metered ε α) : Prop := ∀ a n, Costs m a n → Costs m' a n

theorem Le.refl (m : Metered ε α) : Le m m := fun _ _ h => h

theorem Le.bind {m m' : Metered ε α} {f f' : α → Metered ε β} (hm : Le m m')
    (hf : ∀ a, Le (f a) (f' a)) :
    Le (m >>= f) (m' >>= f') := by
  intro b n h
  obtain ⟨a, ⟨k, hk⟩, j, hj⟩ := evals_bind.1 ⟨n, h⟩
  obtain ⟨-, rfl⟩ := h.eq (Costs.bind hk hj)
  exact Costs.bind (hm _ _ hk) (hf _ _ _ hj)

theorem Le.guard {c c' : Prop} [Decidable c] [Decidable c'] {e e' : ε} {m m' : Metered ε α}
    (hc : c' → c)
    (hm : Le m m') : Le (if c then throw e else m) (if c' then throw e' else m') := by
  intro a n h
  by_cases hcc : c
  · rw [if_pos hcc] at h
    exact absurd ⟨n, h⟩ not_evals_throw
  · rw [if_neg hcc] at h
    rw [if_neg fun h' => hcc (hc h')]
    exact hm _ _ h

theorem Le.fold {f f' : σ → α → Metered ε σ} (hf : ∀ s x, Le (f s x) (f' s x)) :
    ∀ (l : List α) (s : σ), Le (fold f s l) (fold f' s l) := by
  intro l
  induction l with
  | nil => intro s; exact .refl _
  | cons x l ih => intro s; exact (hf s x).bind fun t => ih t

theorem Le.while_ {body' : σ → Metered ε σ} (hb : ∀ s, Le (body s) (body' s)) (s : σ) :
    Le (while_ cond e body s) (while_ cond e body' s) := by
  have hloop : ∀ fuel s, Le (loop cond e body fuel s) (loop cond e body' fuel s) := by
    intro fuel
    induction fuel with
    | zero => intro s; exact .refl _
    | succ fuel ih =>
      intro s
      rw [loop, loop]
      split
      · exact (Le.refl _).bind fun _ => (hb s).bind ih
      · exact .refl _
  intro s' n h limit work hl
  obtain ⟨-, k, hk, -, hc⟩ := loop_ok _ s s' limit work _ (by omega) (h limit work hl)
  obtain rfl : n = k := by omega
  exact hloop _ _ _ _ (hc (limit - work) (by omega)) limit work hl

end Metered

end Libjadx
