import Mathlib.Logic.Relation
import Mathlib.Logic.Function.Basic

/-!
# Union–find over a parent function

A forest is a parent function; a root is its own parent. `Root p x r`: following parents
from `x` ends in the root `r`. Linking one root below another (`link`) merges two classes
and keeps every other one (`root_link`), so after any sequence of unions two elements
share a root exactly when the united pairs connect them (`Partition.union`).
-/

namespace Libjadx

namespace Forest

variable {α : Type} {p : α → α} {x y r s : α}

/-- Following parents from `x` ends in the root `r`. -/
inductive Root (p : α → α) : α → α → Prop
  | here {r : α} : p r = r → Root p r r
  | up {x r : α} : p x ≠ x → Root p (p x) r → Root p x r

theorem Root.fix (h : Root p x r) : p r = r := by
  induction h with
  | here h => exact h
  | up _ _ ih => exact ih

theorem Root.unique (h : Root p x r) (h' : Root p x s) : r = s := by
  induction h with
  | here hr =>
    cases h' with
    | here _ => rfl
    | up hn _ => exact absurd hr hn
  | up hn _ ih =>
    cases h' with
    | here hr => exact absurd hr hn
    | up _ h' => exact ih h'

/-- Two elements share a root. -/
def Same (p : α → α) (x y : α) : Prop := ∃ r, Root p x r ∧ Root p y r

/-- The classes of the forest are those of the equivalence that `R` generates. -/
structure Partition (p : α → α) (R : α → α → Prop) : Prop where
  rooted : ∀ x, ∃ r, Root p x r
  same : ∀ x y, Same p x y ↔ Relation.EqvGen R x y

theorem partition_id : Partition (id : α → α) (fun _ _ => False) := by
  refine ⟨fun x => ⟨x, .here rfl⟩, fun x y => ⟨?_, ?_⟩⟩
  · rintro ⟨r, hx, hy⟩
    have key : ∀ z, Root (id : α → α) z r → r = z := fun z h => h.unique (.here rfl)
    rw [← key x hx, ← key y hy]
    exact .refl _
  · intro h
    induction h with
    | rel _ _ h => exact h.elim
    | refl x => exact ⟨x, .here rfl, .here rfl⟩
    | symm _ _ _ ih => obtain ⟨r, h1, h2⟩ := ih; exact ⟨r, h2, h1⟩
    | trans _ _ _ _ _ ih1 ih2 =>
      obtain ⟨r, h1, h2⟩ := ih1
      obtain ⟨s, h3, h4⟩ := ih2
      exact ⟨r, h1, h2.unique h3 ▸ h4⟩

theorem Partition.congr {R S : α → α → Prop} (hp : Partition p R)
    (h : ∀ x y, Relation.EqvGen R x y ↔ Relation.EqvGen S x y) : Partition p S :=
  ⟨hp.rooted, fun x y => (hp.same x y).trans (h x y)⟩

/-- A function constant along `R` is constant on its classes. -/
theorem eqvGen_eq {β : Type*} {R : α → α → Prop} {f : α → β} (hf : ∀ x y, R x y → f x = f y)
    (h : Relation.EqvGen R x y) : f x = f y := by
  induction h with
  | rel _ _ h => exact hf _ _ h
  | refl _ => rfl
  | symm _ _ _ ih => exact ih.symm
  | trans _ _ _ _ _ ih1 ih2 => exact ih1.trans ih2

/-- Only the pairs connected to `s` matter for the class of `s`. -/
theorem eqvGen_of_connected {R S : α → α → Prop} {s : α}
    (h : ∀ x y, Relation.EqvGen R s x → Relation.EqvGen R s y → R x y → S x y)
    (hxy : Relation.EqvGen R x y) : Relation.EqvGen R s x → Relation.EqvGen S x y := by
  induction hxy with
  | rel x y hr => exact fun hx => .rel _ _ (h x y hx (hx.trans _ _ _ (.rel _ _ hr)) hr)
  | refl x => exact fun _ => .refl x
  | symm x y hxy ih => exact fun hy => .symm _ _ (ih (hy.trans _ _ _ (.symm _ _ hxy)))
  | trans x y z hxy _ ih1 ih2 => exact fun hx => (ih1 hx).trans _ _ _ (ih2 (hx.trans _ _ _ hxy))

variable [DecidableEq α]

/-- Put the root `b` below the root `a`. -/
def link (p : α → α) (a b : α) : α → α := Function.update p b a

/-- After a link the class of `b` has the root `a`; the others keep theirs. -/
theorem root_link {a b : α} (ha : p a = a) (hb : p b = b) (h : Root p x r) :
    Root (link p a b) x (if r = b then a else r) := by
  have hroot : Root (link p a b) a a := by
    refine .here ?_
    by_cases hab : a = b
    · subst hab; simp [link]
    · simp [link, Function.update_of_ne hab, ha]
  induction h with
  | @here r hr =>
    split
    · rename_i hrb
      subst hrb
      by_cases hab : a = r
      · subst hab; exact hroot
      · exact .up (by simpa [link] using hab) (by simpa [link] using hroot)
    · rename_i hrb
      exact .here (by simp [link, Function.update_of_ne hrb, hr])
  | @up x r hn _ ih =>
    have hxb : x ≠ b := fun h => hn (h ▸ hb)
    have hx : link p a b x = p x := Function.update_of_ne hxb _ _
    exact .up (by rw [hx]; exact hn) (by rw [hx]; exact ih)

/-- **A union.** Linking the roots of `u` and `v`, either way round, adds the pair `(u, v)`. -/
theorem Partition.union {R : α → α → Prop} (hp : Partition p R) {u v a b : α} (hu : Root p u a)
    (hv : Root p v b) :
    Partition (link p a b) (fun x y => R x y ∨ x = u ∧ y = v) := by
  have ha := hu.fix
  have hb := hv.fix
  have hmono : ∀ x y, Relation.EqvGen R x y → Relation.EqvGen (fun x y => R x y ∨ x = u ∧
      y = v) x y :=
    fun x y h => h.mono fun _ _ h => Or.inl h
  have huv : Relation.EqvGen (fun x y => R x y ∨ x = u ∧ y = v) u v := .rel _ _ (Or.inr ⟨rfl, rfl⟩)
  have hroots : ∀ x y r, Root p x r → Root p y r →
      Relation.EqvGen (fun x y => R x y ∨ x = u ∧ y = v) x y :=
    fun x y r h1 h2 => hmono _ _ ((hp.same x y).1 ⟨r, h1, h2⟩)
  refine ⟨fun x => ?_, fun x y => ⟨?_, ?_⟩⟩
  · obtain ⟨r, hr⟩ := hp.rooted x
    exact ⟨_, root_link ha hb hr⟩
  · rintro ⟨r, hx, hy⟩
    obtain ⟨rx, hrx⟩ := hp.rooted x
    obtain ⟨ry, hry⟩ := hp.rooted y
    have hr1 := hx.unique (root_link ha hb hrx)
    have hr2 := hy.unique (root_link ha hb hry)
    by_cases h1 : rx = b <;> by_cases h2 : ry = b
    · subst h1; subst h2; exact hroots x y _ hrx hry
    · -- `x` was below `b`, `y` below `a`
      rw [if_pos h1] at hr1
      rw [if_neg h2] at hr2
      subst h1
      rw [← hr2, hr1] at hry
      exact (hroots x v _ hrx hv).trans _ _ _ ((huv.symm).trans _ _ _ (hroots u y _ hu hry))
    · rw [if_neg h1] at hr1
      rw [if_pos h2] at hr2
      subst h2
      rw [← hr1, hr2] at hrx
      exact (hroots x u _ hrx hu).trans _ _ _ (huv.trans _ _ _ (hroots v y _ hv hry))
    · rw [if_neg h1] at hr1
      rw [if_neg h2] at hr2
      rw [← hr1] at hrx
      rw [← hr2] at hry
      exact hroots x y _ hrx hry
  · intro h
    induction h with
    | rel x y h =>
      rcases h with h | ⟨rfl, rfl⟩
      · obtain ⟨r, h1, h2⟩ := (hp.same x y).2 (.rel _ _ h)
        exact ⟨_, root_link ha hb h1, root_link ha hb h2⟩
      · have h1 := root_link ha hb hu
        have h2 := root_link ha hb hv
        rw [if_pos rfl] at h2
        refine ⟨a, ?_, h2⟩
        split at h1 <;> exact h1
    | refl x =>
      obtain ⟨r, hr⟩ := hp.rooted x
      exact ⟨_, root_link ha hb hr, root_link ha hb hr⟩
    | symm _ _ _ ih => obtain ⟨r, h1, h2⟩ := ih; exact ⟨r, h2, h1⟩
    | trans _ _ _ _ _ ih1 ih2 =>
      obtain ⟨r, h1, h2⟩ := ih1
      obtain ⟨s, h3, h4⟩ := ih2
      exact ⟨r, h1, h2.unique h3 ▸ h4⟩

end Forest

end Libjadx
