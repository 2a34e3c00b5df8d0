import Mathlib.Logic.Function.Basic
import Mathlib.Data.List.Basic

/-!
# Critical sections

`Locked σ ε α` is a computation on a state that keeps the state when it throws: there is no
rollback. Where a section cannot throw, `bind_ok` runs it step by step. Where it may,
`Triple bad I m Q E` says where it ends from the states of `I`: in `Q` with a value, in `E` with
an error, as long as the error is none of `bad`.
-/

namespace Libjadx

theorem bind_eq_ok {ε α β : Type} {x : Except ε α} {f : α → Except ε β} {b : β} :
    x >>= f = .ok b ↔ ∃ a, x = .ok a ∧ f a = .ok b := by
  cases x with
  | error e => simp [bind, Except.bind]
  | ok a => simp [bind, Except.bind]

/-- A computation on a state that keeps the state when it throws. -/
def Locked (σ ε α : Type) : Type := σ → Except ε α × σ

namespace Locked

variable {σ ε α β : Type}

protected def pure (a : α) : Locked σ ε α := fun s => (.ok a, s)

protected def bind (m : Locked σ ε α) (f : α → Locked σ ε β) : Locked σ ε β := fun s =>
  match m s with
  | (.ok a, t) => f a t
  | (.error e, t) => (.error e, t)

instance : Monad (Locked σ ε) where
  pure := Locked.pure
  bind := Locked.bind

def throw (e : ε) : Locked σ ε α := fun s => (.error e, s)

def get : Locked σ ε σ := fun s => (.ok s, s)

def modify (f : σ → σ) : Locked σ ε Unit := fun s => (.ok (), f s)

/-- `if (c) m`. -/
def when (c : Bool) (m : Locked σ ε Unit) : Locked σ ε Unit := if c then m else pure ()

/-- `try m catch (e) throw f(e)`. -/
def mapError (f : ε → ε) (m : Locked σ ε α) : Locked σ ε α := fun s => ((m s).1.mapError f, (m s).2)

/-- `for (x : l) body(x)`, over a copy of the list. -/
def forEach (l : List β) (body : β → Locked σ ε Unit) : Locked σ ε Unit :=
  match l with
  | [] => pure ()
  | x :: l => body x >>= fun _ => forEach l body

/-! ## Running -/

@[simp] theorem pure_run (a : α) (s : σ) : (pure a : Locked σ ε α) s = (.ok a, s) := rfl

@[simp] theorem throw_run (e : ε) (s : σ) : (throw e : Locked σ ε α) s = (.error e, s) := rfl

@[simp] theorem get_run (s : σ) : (get : Locked σ ε σ) s = (.ok s, s) := rfl

@[simp] theorem modify_run (f : σ → σ) (s : σ) :
    (modify f : Locked σ ε Unit) s = (.ok (), f s) := rfl

theorem bind_ok {m : Locked σ ε α} {f : α → Locked σ ε β} {s t : σ} {a : α} (h : m s = (.ok a, t)) :
    (m >>= f) s = f a t := by
  show Locked.bind m f s = f a t
  unfold Locked.bind
  rw [h]

theorem bind_error {m : Locked σ ε α} {f : α → Locked σ ε β} {s t : σ} {e : ε}
    (h : m s = (.error e, t)) :
    (m >>= f) s = (.error e, t) := by
  show Locked.bind m f s = _
  unfold Locked.bind
  rw [h]

@[simp] theorem bind_get {f : σ → Locked σ ε β} {s : σ} : (get >>= f) s = f s s := rfl

@[simp] theorem bind_modify {g : σ → σ} {f : Unit → Locked σ ε β} {s : σ} :
    (modify g >>= f) s = f () (g s) := rfl

@[simp] theorem bind_pure_run {a : α} {f : α → Locked σ ε β} {s : σ} :
    (pure a >>= f) s = f a s := rfl

theorem map_run {m : Locked σ ε α} {g : α → β} {s : σ} :
    (m >>= fun a => pure (g a)) s = ((m s).1.map g, (m s).2) := by
  rcases hr : m s with ⟨e | a, t⟩
  · exact bind_error hr
  · exact bind_ok hr

@[simp] theorem bind_throw {e : ε} {f : α → Locked σ ε β} {s : σ} :
    ((throw e : Locked σ ε α) >>= f) s = (.error e, s) := rfl

@[simp] theorem ite_run {c : Prop} [Decidable c] {m m' : Locked σ ε α} {s : σ} :
    (if c then m else m') s = if c then m s else m' s := by
  split <;> rfl

@[simp] theorem when_true {m : Locked σ ε Unit} : when true m = m := rfl

@[simp] theorem when_false {m : Locked σ ε Unit} : when false m = pure () := rfl

theorem forEach_modify (g : β → σ → σ) (l : List β) (s : σ) :
    (forEach l fun x => modify (g x) : Locked σ ε Unit) s = (.ok (), l.foldl (fun s x => g x s) s) := by
  induction l generalizing s with
  | nil => rfl
  | cons x l ih => exact ih (g x s)

/-! ## Triples -/

/-- From states of `I` the computation ends in `Q` with a value, or in `E` with an error, unless
the error is one that is not accounted for. -/
def Triple (bad : ε → Prop) (I : σ → Prop) (m : Locked σ ε α) (Q : α → σ → Prop) (E : σ → Prop) :
    Prop :=
  ∀ s, I s → match m s with
    | (.ok a, t) => Q a t
    | (.error e, t) => bad e ∨ E t

/-- `I` survives every outcome that is accounted for. -/
def Keeps (bad : ε → Prop) (I : σ → Prop) (m : Locked σ ε α) : Prop := Triple bad I m (fun _ => I) I

variable {bad : ε → Prop} {I J : σ → Prop} {E : σ → Prop} {m : Locked σ ε α} {f : α → Locked σ ε β}
  {R Q : α → σ → Prop} {P : β → σ → Prop}

theorem Triple.ok (h : Triple bad I m Q E) {s t : σ} {a : α} (hs : I s) (hr : m s = (.ok a, t)) :
    Q a t := by
  have := h s hs
  rw [hr] at this
  exact this

theorem Triple.error (h : Triple bad I m Q E) {s t : σ} {e : ε} (hs : I s)
    (hr : m s = (.error e, t)) :
    bad e ∨ E t := by
  have := h s hs
  rw [hr] at this
  exact this

theorem Keeps.outcome (h : Keeps bad I m) {s : σ} (hs : I s)
    (hbad : ∀ e, (m s).1 = .error e → ¬ bad e) : I (m s).2 := by
  rcases hr : m s with ⟨e | a, t⟩
  · exact (Triple.error h hs hr).resolve_left (hbad e (by rw [hr]))
  · exact Triple.ok h hs hr

theorem Triple.weaken {E' : σ → Prop} (h : Triple bad I m R E') (hpre : ∀ s, J s → I s)
    (hpost : ∀ a s, R a s → Q a s) (herr : ∀ s, E' s → E s) : Triple bad J m Q E := by
  intro s hs
  have := h s (hpre s hs)
  rcases hr : m s with ⟨e | a, t⟩
  · rw [hr] at this; exact this.imp_right (herr t)
  · rw [hr] at this; exact hpost a t this

theorem triple_pure {a : α} (h : ∀ s, I s → Q a s) : Triple bad I (pure a) Q E := fun s hs => h s hs

theorem triple_throw {e : ε} (h : ∀ s, I s → bad e ∨ E s) :
    Triple bad I (throw e : Locked σ ε α) Q E :=
  fun s hs => h s hs

theorem triple_modify {g : σ → σ} {Q : Unit → σ → Prop} (h : ∀ s, I s → Q () (g s)) :
    Triple bad I (modify g) Q E := fun s hs => h s hs

theorem Triple.bind (hm : Triple bad I m R E) (hf : ∀ a, Triple bad (R a) (f a) P E) :
    Triple bad I (m >>= f) P E := by
  intro s hs
  rcases hr : m s with ⟨e | a, t⟩
  · rw [bind_error hr]
    exact hm.error hs hr
  · rw [bind_ok hr]
    exact hf a t (hm.ok hs hr)

/-- What follows a `get` knows the state exactly. -/
theorem triple_get {g : σ → Locked σ ε β}
    (h : ∀ s₀, I s₀ → Triple bad (fun s => s = s₀) (g s₀) P E) :
    Triple bad I (get >>= g) P E := fun s hs => h s hs s rfl

/-- What follows a `get` keeps what was known, and has a state it was known of. -/
theorem triple_get_keep {g : σ → Locked σ ε β} (h : ∀ s₀, I s₀ → Triple bad I (g s₀) P E) :
    Triple bad I (get >>= g) P E := fun s hs => h s hs s hs

theorem triple_ite {c : Prop} [Decidable c] {m m' : Locked σ ε α} (h : c → Triple bad I m Q E)
    (h' : ¬ c → Triple bad I m' Q E) : Triple bad I (if c then m else m') Q E := by
  split
  · exact h ‹_›
  · exact h' ‹_›

/-- `if (c) throw e;`: what follows knows that `c` is false. -/
theorem triple_guard {c : Bool} {e : ε} {g : Unit → Locked σ ε β}
    (hthrow : c = true → ∀ s, I s → bad e ∨ E s)
    (hg : c = false → Triple bad I (g ()) P E) : Triple bad I (when c (throw e) >>= g) P E := by
  cases c with
  | true => exact hthrow rfl
  | false => exact hg rfl

theorem triple_when {c : Bool} {m : Locked σ ε Unit} {K : σ → Prop}
    (h : c = true → Triple bad I m (fun _ => K) E)
    (h' : c = false → ∀ s, I s → K s) : Triple bad I (when c m) (fun _ => K) E :=
  triple_ite h fun hc => triple_pure (h' (by simpa using hc))

/-- What two triples say of one computation. -/
theorem Triple.and {E' : σ → Prop} (h : Triple bad I m R E) (h' : Triple bad J m Q E') :
    Triple bad (fun s => I s ∧ J s) m (fun a s => R a s ∧ Q a s) (fun s => E s ∧ E' s) := by
  intro s hs
  have h₁ := h s hs.1
  have h₂ := h' s hs.2
  rcases hr : m s with ⟨e | a, t⟩
  · rw [hr] at h₁ h₂
    exact h₁.elim .inl fun h₁ => h₂.imp_right fun h₂ => ⟨h₁, h₂⟩
  · rw [hr] at h₁ h₂
    exact ⟨h₁, h₂⟩

theorem Triple.mapError {g : ε → ε} (h : Triple (fun e => bad (g e)) I m Q E) :
    Triple bad I (Locked.mapError g m) Q E := by
  intro s hs
  have hm := h s hs
  unfold Locked.mapError
  rcases hr : m s with ⟨e | a, t⟩
  · rw [hr] at hm
    exact hm
  · rw [hr] at hm
    exact hm

/-! Triples at one state: what has run so far is known exactly. -/

variable {s t : σ} {a : α}

theorem triple_at_get {g : σ → Locked σ ε β} (h : Triple bad (fun t => t = s) (g s) P E) :
    Triple bad (fun t => t = s) (get >>= g) P E := triple_get fun _ hs => hs ▸ h

theorem triple_at_modify {g : σ → σ} {f : Unit → Locked σ ε β}
    (h : Triple bad (fun t => t = g s) (f ()) P E) :
    Triple bad (fun t => t = s) (modify g >>= f) P E := fun t ht => by
  subst ht
  exact h _ rfl

theorem triple_at_ok (hr : m s = (.ok a, t)) (h : Triple bad (fun t' => t' = t) (f a) P E) :
    Triple bad (fun t' => t' = s) (m >>= f) P E := fun s' hs => by
  subst hs
  rw [bind_ok hr]
  exact h _ rfl

/-- A computation that keeps `I`, before one whose errors end in `E`. -/
theorem Keeps.to (h : Keeps bad I m) (hE : ∀ s, I s → E s) : Triple bad I m (fun _ => I) E :=
  Triple.weaken h (fun _ hs => hs) (fun _ _ hs => hs) hE

theorem keeps_throw {e : ε} :
    Keeps bad I (throw e : Locked σ ε α) := triple_throw fun _ hs => .inr hs

theorem keeps_pure {a : α} : Keeps bad I (pure a : Locked σ ε α) := triple_pure fun _ hs => hs

theorem keeps_when {c : Bool} {m : Locked σ ε Unit} (h : Keeps bad I m) : Keeps bad I (when c m) :=
  triple_when (fun _ => h) fun _ _ hs => hs

/-- The loop rule. -/
theorem triple_forEach {l : List β} {body : β → Locked σ ε Unit}
    (hb : ∀ x ∈ l, Triple bad I (body x) (fun _ => I) E) : Triple bad I (forEach l body)
    (fun _ => I) E := by
  induction l with
  | nil => exact triple_pure fun _ hs => hs
  | cons x l ih =>
    exact (hb x List.mem_cons_self).bind fun _ => ih fun y hy => hb y (List.mem_cons_of_mem _ hy)

end Locked

end Libjadx
