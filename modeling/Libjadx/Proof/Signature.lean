import Libjadx.Proof.Component

/-!
# The declarations of one signature, and their joins

* `evals_scanClasses`: the scan keeps each class's instance declarations of the signature; the
  seed's name enters only through a guard (`Unbridged`).
* `joinClasses_ok`: after all joins two declarations share a root exactly when joined pairs
  connect them, and the two sides of a joined pair have one return type.
-/

namespace Libjadx

open Metered

namespace IndependentHierarchyVerifier

open HierarchyGraph

variable {v : IndependentHierarchyVerifier} {component : List JString} {ancestors : Ancestors}

/-! ## The scan -/

/-- No declaration called `name` in the class is a bridge or synthetic. -/
def Unbridged (name : JString) (cls : ClassRecord) : Prop :=
  ∀ m ∈ cls.methods, m.name = name → ¬ (m.has (Access.BRIDGE ||| Access.SYNTHETIC) ∨
    cls.has Access.SYNTHETIC)

/-- The instance declarations of a signature in a class. -/
def declarations (signature : JString) (cls : ClassRecord) : List MethodRecord :=
  cls.methods.filter fun m => m.signature = signature ∧ m.instance?

/-- What the scan demands of a declaration that has the signature. -/
def Scannable (v : IndependentHierarchyVerifier) (component : List JString) (ancestors : Ancestors)
    (cls : ClassRecord) (m : MethodRecord) : Prop :=
  ¬ (1 < m.access.count (Access.PUBLIC ||| Access.PRIVATE ||| Access.PROTECTED) ∨
      (m.has Access.ABSTRACT ∧ m.has (Access.STATIC ||| Access.PRIVATE ||| Access.FINAL))) ∧
    (¬ m.instance? → Evals (v.checkHiding component ancestors cls m) ())

/-- What the scan demands of a class, apart from the seed's name. -/
structure ScanOk (v : IndependentHierarchyVerifier) (component : List JString)
    (ancestors : Ancestors)
    (signature : JString) (cls : ClassRecord) : Prop where
  scannable : ∀ m ∈ cls.methods, m.signature = signature → v.Scannable component ancestors cls m
  single : (declarations signature cls).length ≤ 1
  final : ¬ (cls.has Access.FINAL ∧ v.graph.children cls.descriptor ≠ [])

/-- **The scan of one method, in terms of its records.** -/
theorem evals_scanMethod {seed m : MethodRecord} {cls : ClassRecord}
    {methods out : List MethodRecord} :
    Evals (v.scanMethod component ancestors seed cls methods m) out ↔
      ((m.name = seed.name → ¬ (m.has (Access.BRIDGE ||| Access.SYNTHETIC) ∨ cls.has Access.SYNTHETIC)) ∧
        (m.signature = seed.signature → v.Scannable component ancestors cls m)) ∧
      out = if m.signature = seed.signature ∧ m.instance? then methods ++ [m] else methods := by
  have hunit : (∃ u : Unit, Evals (v.checkHiding component ancestors cls m) u ∧ out = methods) ↔
      Evals (v.checkHiding component ancestors cls m) () ∧ out = methods :=
    ⟨fun ⟨(), h⟩ => h, fun h => ⟨(), h⟩⟩
  unfold scanMethod Scannable
  simp only [evals_bind, evals_walkStep, true_and, exists_const, evals_ite, not_evals_fail,
    evals_pure, hunit]
  grind

/-- A fold that appends what passes is a filter. -/
theorem foldl_append_ite {α : Type} (p : α → Prop) [DecidablePred p] : ∀ (l s : List α),
    l.foldl (fun s x => if p x then s ++ [x] else s) s = s ++ l.filter p := by
  intro l
  induction l with
  | nil => simp
  | cons x l ih =>
    intro s
    rw [List.foldl_cons, ih, List.filter_cons]
    by_cases hx : p x <;> simp [hx]

/-- **The scan of a class's methods.** -/
theorem evals_scanMethods {seed : MethodRecord} {cls : ClassRecord} {out : List MethodRecord} :
    Evals (fold (v.scanMethod component ancestors seed cls) [] cls.methods) out ↔
      Unbridged seed.name cls ∧
      (∀ m ∈ cls.methods, m.signature = seed.signature → v.Scannable component ancestors cls m) ∧
      out = declarations seed.signature cls := by
  rw [evals_fold_foldl (f := v.scanMethod component ancestors seed cls) cls.methods
    fun _ _ _ _ => evals_scanMethod]
  rw [foldl_append_ite fun m : MethodRecord => m.signature = seed.signature ∧ m.instance?]
  rw [List.nil_append, ← and_assoc]
  refine and_congr ?_ Iff.rfl
  exact ⟨fun h => ⟨fun m hm => (h m hm).1, fun m hm => (h m hm).2⟩, fun h m hm =>
    ⟨h.1 m hm, h.2 m hm⟩⟩

/-- **The scan of a class.** -/
theorem evals_scanClass {seed : MethodRecord} {cls : ClassRecord} {matching out : Matching} :
    Evals (v.scanClass component ancestors seed matching cls) out ↔
      (Unbridged seed.name cls ∧ v.ScanOk component ancestors seed.signature cls) ∧
      out = matching ++ [(cls.descriptor, declarations seed.signature cls)] := by
  unfold scanClass
  simp only [evals_bind, evals_scanMethods, evals_ite, not_evals_fail, imp_false, evals_pure]
  constructor
  · rintro ⟨_, ⟨h1, h2, rfl⟩, h3, h4⟩
    obtain ⟨h4, h5⟩ := h4 h3
    exact ⟨⟨h1, h2, by omega, h4⟩, h5 h4⟩
  · rintro ⟨⟨h1, h2, h3, h4⟩, h5⟩
    exact ⟨_, ⟨h1, h2, rfl⟩, by omega, fun _ => ⟨h4, fun _ => h5⟩⟩

/-- **The scan.** What it keeps depends on the signature alone. -/
theorem evals_scanClasses {seed : MethodRecord} {out : Matching} :
    Evals (v.scanClasses component ancestors seed) out ↔
      (∀ cls ∈ v.classes component, Unbridged seed.name cls ∧
        v.ScanOk component ancestors seed.signature cls) ∧
      out = (v.classes component).map fun cls =>
        (cls.descriptor, declarations seed.signature cls) := by
  unfold scanClasses
  rw [evals_fold_foldl (f := v.scanClass component ancestors seed) (v.classes component)
    fun _ _ _ _ => evals_scanClass]
  have hmap : ∀ (l : List ClassRecord) (s : Matching),
      l.foldl (fun s cls => s ++ [(cls.descriptor, declarations seed.signature cls)]) s =
        s ++ l.map fun cls => (cls.descriptor, declarations seed.signature cls) := by
    intro l
    induction l with
    | nil => simp
    | cons cls l ih => intro s; simp [ih]
  rw [hmap, List.nil_append]

/-! ## The declarations visible in a class -/

/-- Inherited methods are those that are visible. -/
theorem evals_inherit {cls : ClassRecord} {l : List MethodRecord} :
    ∀ {visible out : List MethodRecord},
    Evals (fold (inherit cls) visible l) out ↔
      out = visible ++ l.filter fun m => visibleIn m cls.descriptor := by
  induction l with
  | nil => intro visible out; simp
  | cons m l ih =>
    intro visible out
    rw [evals_fold_cons, List.filter_cons]
    unfold inherit at ih ⊢
    by_cases hm : visibleIn m cls.descriptor = true <;> simp [hm, ih]

/-- The declarations visible in a class. -/
def visibleList (ancestors : Ancestors) (matching : Matching) (cls : ClassRecord) :
    List MethodRecord :=
  matching.of cls.descriptor ++
    ((treeSet (ancestors.of cls.descriptor)).flatMap matching.of).filter fun m =>
      visibleIn m cls.descriptor

/-- **The visible methods of a class.** -/
theorem evals_visibleMethods {matching : Matching} {cls : ClassRecord} {out : List MethodRecord} :
    Evals (visibleMethods ancestors matching cls) out ↔
      out = visibleList ancestors matching cls := by
  unfold visibleMethods visibleList
  generalize treeSet (ancestors.of cls.descriptor) = parents
  generalize matching.of cls.descriptor = visible
  induction parents generalizing visible with
  | nil => simp
  | cons parent parents ih =>
    rw [evals_fold_cons, List.flatMap_cons, List.filter_append, ← List.append_assoc]
    simp only [evals_inherit, exists_eq_left, ih]

/-- What is visible matches in the class or in an ancestor. -/
theorem mem_visibleList {matching : Matching} {cls : ClassRecord} {m : MethodRecord} :
    m ∈ visibleList ancestors matching cls ↔ m ∈ matching.of cls.descriptor ∨
      ∃ parent ∈ ancestors.of cls.descriptor, m ∈ matching.of parent ∧
        visibleIn m cls.descriptor := by
  simp only [visibleList, List.mem_append, List.mem_filter, List.mem_flatMap, mem_treeSet]
  refine or_congr Iff.rfl ?_
  constructor
  · rintro ⟨⟨p, hp, hm⟩, hv⟩
    exact ⟨p, hp, hm, hv⟩
  · rintro ⟨p, hp, hm, hv⟩
    exact ⟨⟨p, hp, hm⟩, hv⟩

/-- The pairs of a list are of its elements. -/
theorem mem_of_mem_pairs {α : Type} {l : List α} {a b : α} (h : (a, b) ∈ pairs l) :
    a ∈ l ∧ b ∈ l := by
  induction l with
  | nil => simp [pairs] at h
  | cons c l ih =>
    rw [pairs, List.mem_append, List.mem_map] at h
    rcases h with ⟨x, hx, h⟩ | h
    · obtain ⟨rfl, rfl⟩ := Prod.mk.inj h
      exact ⟨List.mem_cons_self, List.mem_cons_of_mem _ hx⟩
    · exact ⟨List.mem_cons_of_mem _ (ih h).1, List.mem_cons_of_mem _ (ih h).2⟩

/-- Two elements are paired, one way or the other. -/
theorem mem_pairs {α : Type} {l : List α} {a b : α} (ha : a ∈ l) (hb : b ∈ l) (hne : a ≠ b) :
    (a, b) ∈ pairs l ∨ (b, a) ∈ pairs l := by
  induction l with
  | nil => simp at ha
  | cons c l ih =>
    simp only [pairs, List.mem_append, List.mem_map]
    rcases List.mem_cons.1 ha with rfl | ha <;> rcases List.mem_cons.1 hb with rfl | hb
    · exact absurd rfl hne
    · exact .inl (.inl ⟨b, hb, rfl⟩)
    · rename_i hca
      exact .inr (.inl ⟨a, hca, rfl⟩)
    · exact (ih ha hb).imp .inr .inr

/-! ## Joins -/

/-- A find evaluates to the root. -/
theorem evals_find {groups : Groups} {r s : SymbolRef} :
    Evals (find groups r) s ↔ Forest.Root groups r s := by
  unfold find
  rw [evals_while]
  constructor
  · intro h
    induction h with
    | done hc => exact .here (by simpa using hc)
    | next hc hb _ ih =>
      rw [evals_pure] at hb
      exact .up (by simpa using hc) (hb ▸ ih)
  · intro h
    induction h with
    | here hr => exact .done (by simpa using hr)
    | up hr _ ih => exact .next (by simpa using hr) (evals_pure.2 rfl) ih

/-- **A union joins two groups of the partition.** -/
theorem union_partition {groups t : Groups} {a b : SymbolRef} {R : SymbolRef → SymbolRef → Prop}
    (hp : Forest.Partition groups R) (h : Evals (union groups a b) t) :
    Forest.Partition t (fun r s => R r s ∨ r = a ∧ s = b) := by
  unfold union at h
  simp only [evals_bind, evals_find] at h
  obtain ⟨ra, ha, rb, hb, h⟩ := h
  split at h
  · rw [evals_pure] at h
    subst h
    exact hp.union ha hb
  · rw [evals_pure] at h
    subst h
    refine (hp.union hb ha).congr fun x y => ?_
    -- the pair the other way round generates the same equivalence
    have swap : ∀ p q : SymbolRef, ∀ x y, Relation.EqvGen (fun r s => R r s ∨ r = p ∧ s = q) x y →
        Relation.EqvGen (fun r s => R r s ∨ r = q ∧ s = p) x y := by
      intro p q x y h
      induction h with
      | rel x y h =>
        rcases h with h | ⟨rfl, rfl⟩
        · exact .rel _ _ (.inl h)
        · exact .symm _ _ (.rel _ _ (.inr ⟨rfl, rfl⟩))
      | refl x => exact .refl x
      | symm _ _ _ ih => exact .symm _ _ ih
      | trans _ _ _ _ _ ih1 ih2 => exact .trans _ _ _ ih1 ih2
    exact ⟨swap b a x y, swap a b x y⟩

/-- Two visible declarations are joined: one overrides the other, or an interface is involved. -/
def Joins (v : IndependentHierarchyVerifier) (component : List JString) (ancestors : Ancestors)
    (a b : MethodRecord) : Prop :=
  (a.owner ∈ ancestors.of b.owner ∧ visibleIn a b.owner) ∨
  (a.owner ∉ ancestors.of b.owner ∧ b.owner ∈ ancestors.of a.owner ∧ visibleIn b a.owner) ∨
  (a.owner ∉ ancestors.of b.owner ∧ b.owner ∉ ancestors.of a.owner ∧
    ((v.classOf component a.owner).any (·.has Access.INTERFACE) ∨
      (v.classOf component b.owner).any (·.has Access.INTERFACE)))

/-- **One pair.** It is joined, with one return type, or left as it is. -/
theorem joinPair_ok {cls : ClassRecord} {groups t : Groups} {p : MethodRecord × MethodRecord}
    (h : Evals (v.joinPair component ancestors cls groups p) t) :
    (v.Joins component ancestors p.1 p.2 ∧ p.1.returns = p.2.returns ∧
      Evals (union groups p.1.ref p.2.ref) t) ∨
    (¬ v.Joins component ancestors p.1 p.2 ∧ t = groups) := by
  obtain ⟨a, b⟩ := p
  unfold joinPair at h
  unfold Joins
  simp only [evals_bind, evals_walkStep, true_and, exists_const] at h
  have hjoined : (¬ a.returns ≠ b.returns ∧
      (¬ a.returns ≠ b.returns → Evals (union groups a.ref b.ref) t)) →
      a.returns = b.returns ∧ Evals (union groups a.ref b.ref) t :=
    fun hj => ⟨not_not.1 hj.1, hj.2 hj.1⟩
  by_cases ha : a.owner ∈ ancestors.of b.owner
  · -- `a` is declared above `b`
    simp only [ha, true_or, if_true, true_and, not_true_eq_false, false_and, or_false] at h ⊢
    by_cases hv : visibleIn a b.owner = true
    · simp only [hv, not_true_eq_false, if_false, evals_ite, not_evals_fail, imp_false] at h
      exact .inl ⟨hv, hjoined ((h.2 h.1).2 (h.2 h.1).1)⟩
    · exact .inr ⟨hv, by simpa [hv] using h⟩
  · by_cases hb : b.owner ∈ ancestors.of a.owner
    · simp only [ha, hb, or_true, if_true, if_false, false_and, not_false_eq_true, true_and,
        not_true_eq_false, or_false, false_or] at h ⊢
      by_cases hv : visibleIn b a.owner = true
      · simp only [hv, not_true_eq_false, if_false, evals_ite, not_evals_fail, imp_false] at h
        exact .inl ⟨hv, hjoined ((h.2 h.1).2 (h.2 h.1).1)⟩
      · exact .inr ⟨hv, by simpa [hv] using h⟩
    · simp only [ha, hb, or_self, if_false, false_and, not_false_eq_true, true_and, false_or] at h ⊢
      split at h
      · exact .inr ⟨‹_›, by simpa using h⟩
      · rename_i hi
        simp only [evals_ite, not_evals_fail, imp_false] at h
        exact .inl ⟨not_not.1 hi, hjoined (h.2 h.1)⟩

/-! ## All joins -/

/-- Rounds that each add the pairs of `J` to the partition add them all. -/
theorem fold_partition {α : Type} {f : Groups → α → Walk Groups}
    {J : α → SymbolRef → SymbolRef → Prop}
    (hf : ∀ g x t R, Forest.Partition g R → Evals (f g x) t → Forest.Partition t fun r s =>
      R r s ∨ J x r s) :
    ∀ (l : List α) (g t : Groups) (R : SymbolRef → SymbolRef → Prop), Forest.Partition g R →
      Evals (fold f g l) t → Forest.Partition t fun r s => R r s ∨ ∃ x ∈ l, J x r s := by
  intro l
  induction l with
  | nil =>
    intro g t R hg h
    rw [evals_fold_nil] at h
    subst h
    simpa using hg
  | cons x l ih =>
    intro g t R hg h
    obtain ⟨u, hu, h⟩ := evals_fold_cons.1 h
    have := ih u t _ (hf g x u R hg hu) h
    simpa [or_assoc] using this

/-- The pair `(r, s)` is joined in the class `cls`. -/
def JoinedIn (v : IndependentHierarchyVerifier) (component : List JString) (ancestors : Ancestors)
    (matching : Matching) (cls : ClassRecord) (r s : SymbolRef) : Prop :=
  ∃ p ∈ pairs (visibleList ancestors matching cls), v.Joins component ancestors p.1 p.2 ∧
    r = p.1.ref ∧ s = p.2.ref

/-- **The join of a class adds its pairs to the partition.** -/
theorem joinClass_partition {matching : Matching} {cls : ClassRecord} {g t : Groups}
    {R : SymbolRef → SymbolRef → Prop} (hg : Forest.Partition g R)
    (h : Evals (v.joinClass component ancestors matching g cls) t) :
    Forest.Partition t fun r s => R r s ∨ v.JoinedIn component ancestors matching cls r s := by
  unfold joinClass at h
  simp only [evals_bind, evals_visibleMethods, exists_eq_left] at h
  refine fold_partition (fun g p t R hg h => ?_) _ g t R hg h
  rcases joinPair_ok h with ⟨hj, -, hu⟩ | ⟨hj, rfl⟩
  · refine (union_partition hg hu).congr fun x y => ?_
    simp only [hj, true_and]
  · refine hg.congr fun x y => ?_
    simp only [hj, false_and, or_false]

/-- **All joins.** The groups are the classes that the joined pairs generate, and the two
sides of a joined pair have one return type. -/
theorem joinClasses_ok {matching : Matching} {groups : Groups}
    (h : Evals (v.joinClasses component ancestors matching) groups) :
    (Forest.Partition groups fun r s =>
      ∃ cls ∈ v.classes component, v.JoinedIn component ancestors matching cls r s) ∧
    ∀ cls ∈ v.classes component, ∀ p ∈ pairs (visibleList ancestors matching cls),
      v.Joins component ancestors p.1 p.2 → p.1.returns = p.2.returns := by
  refine ⟨?_, ?_⟩
  · have := fold_partition (fun g cls t R hg h => joinClass_partition hg h) _ _ _ _ Forest.partition_id h
    simpa using this
  · refine evals_fold_forall (fun g cls t h => ?_) h
    unfold joinClass at h
    simp only [evals_bind, evals_visibleMethods, exists_eq_left] at h
    refine evals_fold_forall (fun g p t h hj => ?_) h
    rcases joinPair_ok h with ⟨-, hr, -⟩ | ⟨hn, -⟩
    · exact hr
    · exact absurd hj hn

end IndependentHierarchyVerifier

end Libjadx
