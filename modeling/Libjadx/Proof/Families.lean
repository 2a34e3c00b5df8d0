import Libjadx.Proof.Signature

/-!
# From a component to a family

* `Surveyed.joinClasses_related`: over a component that closed, the groups are the classes of
  the relation `Related` among the declarations of one signature.
* `buildGroups_transfer`: the seed's name is only a guard.
* `evals_walk`, `Stages.family`: a walk that ends well goes through its stages, and its members
  are the seed's family among the declarations that share its `signature()` text.
-/

namespace Libjadx

open Metered

namespace IndependentHierarchyVerifier

open HierarchyGraph

variable {v : IndependentHierarchyVerifier} {sig c : JString} {component : List JString}

/-- The names `component` are the class component of `c`, closed and with its ancestors known. -/
structure Surveyed (v : IndependentHierarchyVerifier) (sig c : JString) (component : List JString)
    (ancestors : Ancestors) : Prop where
  closable : v.Closable sig c
  mem : ∀ x, x ∈ component ↔ v.graph.InComponent c x
  nodup : component.Nodup
  ancestors_of : ∀ x ∈ component, (∀ y, y ∈ ancestors.of x ↔ v.graph.Ancestor x y) ∧
    ¬ v.graph.Ancestor x x

namespace Surveyed

variable {ancestors : Ancestors}

/-- The parents of a class of the component are in it. -/
theorem up (hmem : ∀ x, x ∈ component ↔ v.graph.InComponent c x) {x y : JString}
    (hx : x ∈ component)
    (h : v.graph.ParentEdge x y) : y ∈ component :=
  (hmem y).2 (((hmem x).1 hx).tail (.inl h))

/-- What the walk has collected is the component, with the ancestors of each class. -/
theorem of_run {budget : VerificationBudget} (h : Evals (v.collectComponent budget c sig) component)
    (ha : Evals (v.collectAllAncestors component) ancestors) :
    v.Surveyed sig c component ancestors := by
  obtain ⟨hclos, hmem, hnd⟩ := collectComponent_ok h
  refine ⟨hclos, hmem, hnd, fun x hx => ?_⟩
  obtain ⟨seen, hs, heq⟩ := collectAllAncestors_ok ha hx
  rw [heq]
  refine collectAncestors_ok (fun y hy => ?_) (fun y hy z hz => up hmem hy hz) hx hs
  obtain ⟨r, hr⟩ := (hclos y ((hmem y).1 hy)).1
  exact InputCensus.mem_keys.2 ⟨_, hr⟩

/-- A defined class of the component is found in it. -/
theorem classOf_eq {x : JString} {record : ClassRecord} (hx : x ∈ component)
    (h : v.graph.Defined x record) :
    v.classOf component x = some record := by
  unfold Defined at h
  simp [classOf, hx, h]

variable (hs : v.Surveyed sig c component ancestors)

include hs

/-- So are its ancestors. -/
theorem ancestor_mem {x y : JString} (hx : x ∈ component) (h : v.graph.Ancestor x y) :
    y ∈ component := by
  induction h with
  | single h => exact up hs.mem hx h
  | tail _ h ih => exact up hs.mem ih h

/-- The classes of a component are the defined ones in it. -/
theorem mem_classes {cls : ClassRecord} :
    cls ∈ v.classes component ↔ cls.descriptor ∈ component ∧
      v.graph.Defined cls.descriptor cls := by
  unfold classes
  rw [List.mem_filterMap]
  constructor
  · rintro ⟨x, hx, h⟩
    obtain ⟨record, hr⟩ := (hs.closable x ((hs.mem x).1 hx)).1
    rw [classOf_eq hx hr] at h
    obtain rfl := Option.some.inj h
    have hd : record.descriptor = x := InputCensus.descriptor_of_get hr (by simp)
    rw [hd]
    exact ⟨hx, hr⟩
  · rintro ⟨hx, h⟩
    exact ⟨_, hx, classOf_eq hx h⟩

/-- The matching that the scan builds. -/
theorem matching_of {x : JString} {record : ClassRecord} (hx : x ∈ component)
    (h : v.graph.Defined x record) :
    Matching.of ((v.classes component).map fun cls => (cls.descriptor, declarations sig cls)) x =
      declarations sig record := by
  have hd : record.descriptor = x := InputCensus.descriptor_of_get h (by simp)
  have hmem : record ∈ v.classes component :=
    hs.mem_classes.2 ⟨by rw [hd]; exact hx, by rw [hd]; exact h⟩
  have huniq : ∀ cls ∈ v.classes component, cls.descriptor = x → cls = record := by
    intro cls hcls hx
    have hdef := (hs.mem_classes.1 hcls).2
    rw [hx] at hdef
    unfold Defined at hdef h
    rw [h] at hdef
    simpa using hdef.symm
  unfold Matching.of
  suffices ((v.classes component).map fun cls => (cls.descriptor, declarations sig cls)).lookup x =
      some (declarations sig record) by rw [this]; rfl
  generalize v.classes component = l at hmem huniq
  induction l with
  | nil => simp at hmem
  | cons cls l ih =>
    rw [List.map_cons, List.lookup_cons]
    by_cases hcls : x = cls.descriptor
    · have := huniq cls List.mem_cons_self hcls.symm
      simp [hcls, this]
    · have hne : (x == cls.descriptor) = false := by simpa using hcls
      have hmem' : record ∈ l := by
        rcases List.mem_cons.1 hmem with h | h
        · exact absurd (h ▸ hd.symm) hcls
        · exact h
      simp only [hne]
      exact ih hmem' fun c hc => huniq c (List.mem_cons_of_mem _ hc)

/-- The classes are those of the component. -/
theorem defined_of_mem {x : JString} (hx : x ∈ component) : ∃ record, v.graph.Defined x record :=
  (hs.closable x ((hs.mem x).1 hx)).1

/-- The owner of a declared method is in the component. -/
theorem owner_mem {m : MethodRecord} (hm : v.graph.Declares c m) : m.owner ∈ component := by
  obtain ⟨x, record, hx, hdef, hm⟩ := hm
  rw [record.declared m hm, InputCensus.descriptor_of_get hdef (List.mem_singleton.2 rfl)]
  exact (hs.mem x).2 hx

/-- The matching that the scan builds. -/
abbrev scanned (v : IndependentHierarchyVerifier) (sig : JString) (component : List JString) :
    Matching :=
  (v.classes component).map fun cls => (cls.descriptor, declarations sig cls)

/-- **What was scanned of a class**: its declared instance methods with the signature of the seed.
-/
theorem mem_scanned {x : JString} (hx : x ∈ component) {m : MethodRecord} :
    m ∈ (scanned v sig component).of x ↔
      m.owner = x ∧ v.graph.Declares c m ∧ m.instance? ∧ m.signature = sig := by
  obtain ⟨record, hr⟩ := hs.defined_of_mem hx
  have hd : record.descriptor = x := InputCensus.descriptor_of_get hr (List.mem_singleton.2 rfl)
  rw [hs.matching_of hx hr]
  unfold declarations
  rw [List.mem_filter, decide_eq_true_eq]
  constructor
  · rintro ⟨hm, hsig, hi⟩
    exact ⟨(record.declared m hm).trans hd, ⟨x, record, (hs.mem x).1 hx, hr, hm⟩, hi, hsig⟩
  · rintro ⟨ho, ⟨y, record', hy, hr', hm⟩, hi, hsig⟩
    have hyx : y = x := by
      rw [← ho, record'.declared m hm, InputCensus.descriptor_of_get hr' (List.mem_singleton.2 rfl)]
    subst hyx
    unfold Defined at hr hr'
    rw [hr] at hr'
    obtain rfl : record = record' := by simpa using hr'
    exact ⟨hm, hsig, hi⟩

/-- The scan keeps exactly the instance declarations of the signature. -/
theorem declared_iff {m : MethodRecord} :
    (∃ cls ∈ v.classes component, m ∈ declarations sig cls) ↔
      v.graph.Declares c m ∧ m.instance? ∧ m.signature = sig := by
  constructor
  · rintro ⟨cls, hcls, hm⟩
    obtain ⟨hx, hr⟩ := hs.mem_classes.1 hcls
    rw [← hs.matching_of hx hr] at hm
    exact ((hs.mem_scanned hx).1 hm).2
  · intro hm
    have hx := hs.owner_mem hm.1
    obtain ⟨record, hr⟩ := hs.defined_of_mem hx
    have hmem := (hs.mem_scanned hx).2 ⟨rfl, hm⟩
    rw [hs.matching_of hx hr] at hmem
    have hd : record.descriptor = m.owner :=
      InputCensus.descriptor_of_get hr (List.mem_singleton.2 rfl)
    exact ⟨record, hs.mem_classes.2 ⟨by rw [hd]; exact hx, by rw [hd]; exact hr⟩, hmem⟩

/-- Joined declarations are the related ones among those visible together. -/
theorem joins_iff {a b : MethodRecord} (ha : v.graph.Declares c a) (hb : v.graph.Declares c b) :
    v.Joins component ancestors a b ↔
      (v.graph.Ancestor b.owner a.owner ∧ visibleIn a b.owner) ∨
      (v.graph.Ancestor a.owner b.owner ∧ visibleIn b a.owner) ∨
      (¬ v.graph.Ancestor b.owner a.owner ∧ ¬ v.graph.Ancestor a.owner b.owner ∧
        (v.graph.IsInterface a.owner ∨ v.graph.IsInterface b.owner)) := by
  have hao := hs.owner_mem ha
  have hbo := hs.owner_mem hb
  have hacyclic : v.graph.Ancestor b.owner a.owner → ¬ v.graph.Ancestor a.owner b.owner :=
    fun h1 h2 => (hs.ancestors_of _ hao).2 (h2.trans h1)
  have hinterface : ∀ {x : JString}, x ∈ component →
      ((v.classOf component x).any (·.has Access.INTERFACE) = true ↔ v.graph.IsInterface x) := by
    intro x hx
    obtain ⟨record, hr⟩ := hs.defined_of_mem hx
    rw [classOf_eq hx hr, Option.any_some]
    unfold IsInterface
    constructor
    · exact fun h => ⟨record, hr, h⟩
    · rintro ⟨record', hr', h⟩
      unfold Defined at hr hr'
      rw [hr] at hr'
      obtain rfl : record = record' := by simpa using hr'
      exact h
  unfold Joins
  rw [(hs.ancestors_of _ hbo).1, (hs.ancestors_of _ hao).1, hinterface hao, hinterface hbo]
  constructor
  · rintro (h | ⟨-, h⟩ | h)
    · exact .inl h
    · exact .inr (.inl h)
    · exact .inr (.inr h)
  · rintro (h | h | h)
    · exact .inl h
    · exact .inr (.inl ⟨fun h' => hacyclic h' h.1, h⟩)
    · exact .inr (.inr h)

/-- What a class sees: the declarations accessible from it. -/
theorem mem_visible {cls : ClassRecord} (hcls : cls ∈ v.classes component) {m : MethodRecord} :
    m ∈ visibleList ancestors (scanned v sig component) cls ↔
      v.graph.AccessibleFrom m cls.descriptor ∧ v.graph.Declares c m ∧ m.instance? ∧
        m.signature = sig := by
  have hd := (hs.mem_classes.1 hcls).1
  rw [mem_visibleList, hs.mem_scanned hd]
  unfold AccessibleFrom
  constructor
  · rintro (⟨ho, hm⟩ | ⟨parent, hp, hm, hv⟩)
    · refine ⟨⟨.inl ho, ?_⟩, hm⟩
      simp [visibleIn, ho]
    · have hanc := ((hs.ancestors_of _ hd).1 parent).1 hp
      obtain ⟨rfl, hm'⟩ := (hs.mem_scanned (hs.ancestor_mem hd hanc)).1 hm
      exact ⟨⟨.inr hanc, hv⟩, hm'⟩
  · rintro ⟨⟨ho | ho, hv⟩, hm⟩
    · exact .inl ⟨ho, hm⟩
    · exact .inr ⟨m.owner, ((hs.ancestors_of _ hd).1 _).2 ho,
        (hs.mem_scanned (hs.ancestor_mem hd ho)).2 ⟨rfl, hm⟩, hv⟩

/-- Two related declarations are joined in some class. -/
theorem joined_of_related {a b : MethodRecord}
    (ha : v.graph.Declares c a ∧ a.instance? ∧ a.signature = sig)
    (hb : v.graph.Declares c b ∧ b.instance? ∧ b.signature = sig) (hne : a ≠ b)
    (h : v.graph.Related c a b) :
    ∃ cls ∈ v.classes component, ∃ p ∈ pairs (visibleList ancestors (scanned v sig component) cls),
      v.Joins component ancestors p.1 p.2 ∧ (p = (a, b) ∨ p = (b, a)) := by
  -- a class that sees both
  have hsees : ∃ cls ∈ v.classes component, v.graph.AccessibleFrom a cls.descriptor ∧
      v.graph.AccessibleFrom b cls.descriptor := by
    have hclass : ∀ x ∈ component, v.graph.AccessibleFrom a x → v.graph.AccessibleFrom b x →
        ∃ cls ∈ v.classes component, v.graph.AccessibleFrom a cls.descriptor ∧
          v.graph.AccessibleFrom b cls.descriptor := by
      intro x hx h1 h2
      obtain ⟨record, hr⟩ := hs.defined_of_mem hx
      have hd : record.descriptor = x := InputCensus.descriptor_of_get hr (List.mem_singleton.2 rfl)
      rw [← hd] at hx hr h1 h2
      exact ⟨record, hs.mem_classes.2 ⟨hx, hr⟩, h1, h2⟩
    have hself : ∀ m : MethodRecord, v.graph.AccessibleFrom m m.owner :=
      fun m => ⟨.inl rfl, by simp [visibleIn]⟩
    rcases h with ⟨h, hv⟩ | ⟨h, hv⟩ | ⟨-, -, -, x, hx, h1, h2⟩
    · exact hclass b.owner (hs.owner_mem hb.1) ⟨.inr h, hv⟩ (hself b)
    · exact hclass a.owner (hs.owner_mem ha.1) (hself a) ⟨.inr h, hv⟩
    · exact hclass x ((hs.mem x).2 hx) h1 h2
  obtain ⟨cls, hcls, h1, h2⟩ := hsees
  have hj : v.Joins component ancestors a b := by
    rw [hs.joins_iff ha.1 hb.1]
    rcases h with h | h | ⟨h1, h2, h3, -⟩
    · exact .inl h
    · exact .inr (.inl h)
    · exact .inr (.inr ⟨h1, h2, h3⟩)
  have hj' : v.Joins component ancestors b a := by
    rw [hs.joins_iff hb.1 ha.1]
    rcases (hs.joins_iff ha.1 hb.1).1 hj with h | h | ⟨h1, h2, h3⟩
    · exact .inr (.inl h)
    · exact .inl h
    · exact .inr (.inr ⟨h2, h1, h3.symm⟩)
  refine ⟨cls, hcls, ?_⟩
  rcases mem_pairs ((hs.mem_visible hcls).2 ⟨h1, ha⟩) ((hs.mem_visible hcls).2 ⟨h2, hb⟩)
    hne with hp | hp
  · exact ⟨(a, b), hp, hj, .inl rfl⟩
  · exact ⟨(b, a), hp, hj', .inr rfl⟩

/-- Joined declarations are related. -/
theorem related_of_joined {cls : ClassRecord} (hcls : cls ∈ v.classes component)
    {p : MethodRecord × MethodRecord}
    (hp : p ∈ pairs (visibleList ancestors (scanned v sig component) cls))
    (hj : v.Joins component ancestors p.1 p.2) :
    (v.graph.Declares c p.1 ∧ p.1.instance? ∧ p.1.signature = sig) ∧
    (v.graph.Declares c p.2 ∧ p.2.instance? ∧ p.2.signature = sig) ∧ v.graph.Related c p.1 p.2 := by
  obtain ⟨a, b⟩ := p
  obtain ⟨ha, hb⟩ := mem_of_mem_pairs hp
  obtain ⟨hacc, ha⟩ := (hs.mem_visible hcls).1 ha
  obtain ⟨hbcc, hb⟩ := (hs.mem_visible hcls).1 hb
  refine ⟨ha, hb, ?_⟩
  rcases (hs.joins_iff ha.1 hb.1).1 hj with h | h | ⟨h1, h2, h3⟩
  · exact .inl h
  · exact .inr (.inl h)
  · exact .inr (.inr ⟨h1, h2, h3, cls.descriptor,
      (hs.mem _).1 (hs.mem_classes.1 hcls).1, hacc, hbcc⟩)

/-- **The groups.** They are the classes of the relation `Related`, and related declarations
have one return type. -/
theorem joinClasses_related {groups : Groups} {D : MethodRecord → Prop}
    (hD : ∀ m, D m ↔ v.graph.Declares c m ∧ m.instance? ∧ m.signature = sig)
    (h : Evals (v.joinClasses component ancestors (scanned v sig component)) groups) :
    Forest.Partition groups (v.graph.RelatedRefs c D) ∧
    ∀ a b, D a → D b → v.graph.Related c a b → a ≠ b → a.returns = b.returns := by
  obtain ⟨hp, hr⟩ := joinClasses_ok h
  refine ⟨hp.congr fun x y => ⟨fun hxy => ?_, fun hxy => ?_⟩, fun a b ha hb hab hne => ?_⟩
  · refine hxy.mono fun r s hrs => ?_
    obtain ⟨cls, hcls, p, hpp, hj, rfl, rfl⟩ := hrs
    obtain ⟨h1, h2, h3⟩ := hs.related_of_joined hcls hpp hj
    exact ⟨_, _, rfl, rfl, (hD _).2 h1, (hD _).2 h2, h3⟩
  · induction hxy with
    | rel r s hrs =>
      obtain ⟨a, b, rfl, rfl, ha, hb, hab⟩ := hrs
      by_cases hne : a = b
      · rw [hne]; exact .refl _
      obtain ⟨cls, hcls, p, hpp, hj, rfl | rfl⟩ := hs.joined_of_related ((hD a).1 ha)
        ((hD b).1 hb) hne hab
      · exact .rel _ _ ⟨cls, hcls, _, hpp, hj, rfl, rfl⟩
      · exact .symm _ _ (.rel _ _ ⟨cls, hcls, _, hpp, hj, rfl, rfl⟩)
    | refl x => exact .refl x
    | symm _ _ _ ih => exact .symm _ _ ih
    | trans _ _ _ _ _ ih1 ih2 => exact .trans _ _ _ ih1 ih2
  · obtain ⟨cls, hcls, p, hpp, hj, rfl | rfl⟩ := hs.joined_of_related ((hD a).1 ha)
      ((hD b).1 hb) hne hab
    · exact hr cls hcls _ hpp hj
    · exact (hr cls hcls _ hpp hj).symm

end Surveyed

/-! ## The groups of a component -/

/-- **The groups that are built**: one for each method that was scanned, joined along the edges. -/
theorem evals_buildGroups {seed : MethodRecord} {keys : List SymbolRef} {groups : Groups} :
    Evals (v.buildGroups component seed) (keys, groups) ↔
      ∃ ancestors, Evals (v.collectAllAncestors component) ancestors ∧
        Evals (v.validateEdges component) () ∧
        (∀ cls ∈ v.classes component,
          Unbridged seed.name cls ∧ v.ScanOk component ancestors seed.signature cls) ∧
        Evals (v.joinClasses component ancestors (Surveyed.scanned v seed.signature component)) groups ∧
        keys = v.keySetOrder ((Surveyed.scanned v seed.signature component).flatMap
          fun e => e.2.map MethodRecord.ref) := by
  unfold buildGroups
  simp only [evals_bind, evals_pure, evals_scanClasses]
  constructor
  · rintro ⟨ancestors, ha, ⟨⟩, hv, _, ⟨hscan, rfl⟩, groups', hg, heq⟩
    obtain ⟨rfl, rfl⟩ := Prod.mk.inj heq
    exact ⟨ancestors, ha, hv, hscan, hg, rfl⟩
  · rintro ⟨ancestors, ha, hv, hscan, hg, rfl⟩
    exact ⟨ancestors, ha, (), hv, _, ⟨hscan, rfl⟩, groups, hg, rfl⟩

/-- **The seed's name is only a guard.** Another seed of the same signature gets the same keys
and groups, unless a bridge or synthetic declaration has its name. -/
theorem buildGroups_transfer {seed seed' : MethodRecord} {keys : List SymbolRef} {groups : Groups}
    (h : Evals (v.buildGroups component seed) (keys, groups))
    (hsig : seed'.signature = seed.signature)
    (hname : ∀ cls ∈ v.classes component, Unbridged seed'.name cls) :
    Evals (v.buildGroups component seed') (keys, groups) := by
  rw [evals_buildGroups] at h ⊢
  obtain ⟨ancestors, ha, hv, hscan, hg, hk⟩ := h
  rw [hsig]
  exact ⟨ancestors, ha, hv, fun cls hcls => ⟨hname cls hcls, (hscan cls hcls).2⟩, hg, hk⟩

/-- What the groups of a component say about the declarations that satisfy `D`. -/
structure Grouped (v : IndependentHierarchyVerifier) (c : JString) (D : MethodRecord → Prop)
    (keys : List SymbolRef) (groups : Groups) : Prop where
  mem : ∀ r, r ∈ keys ↔ ∃ m, D m ∧ m.ref = r
  once : keys.Nodup
  partition : Forest.Partition groups (v.graph.RelatedRefs c D)
  returns : ∀ a b, D a → D b → v.graph.Related c a b → a ≠ b → a.returns = b.returns

/-- A class is kept under its own descriptor. -/
theorem classOf_descriptor {x : JString} {record : ClassRecord}
    (h : v.classOf component x = some record) :
    record.descriptor = x := by
  unfold classOf at h
  split at h
  · obtain ⟨records, hr, hh⟩ := Option.bind_eq_some_iff.1 h
    exact InputCensus.descriptor_of_get hr (List.mem_of_mem_head? hh)
  · simp at h

/-- No method is scanned twice. -/
theorem nodup_scanned (hnd : component.Nodup) :
    ((Surveyed.scanned v sig component).flatMap fun e => e.2.map MethodRecord.ref).Nodup := by
  unfold Surveyed.scanned
  rw [List.flatMap_map, List.nodup_flatMap]
  refine ⟨fun cls _ => ?_, ?_⟩
  · exact cls.keys.sublist (List.filter_sublist.map _)
  · -- declarations of two classes have two owners
    refine List.Pairwise.filterMap _ (fun x y hxy a ha b hb => ?_) hnd
    intro r hra hrb
    obtain ⟨m, hm, rfl⟩ := List.mem_map.1 hra
    obtain ⟨m', hm', heq⟩ := List.mem_map.1 hrb
    have h1 : m.owner = x := (a.declared m (List.mem_of_mem_filter hm)).trans
      (classOf_descriptor ha)
    have h2 : m'.owner = y := (b.declared m' (List.mem_of_mem_filter hm')).trans
      (classOf_descriptor hb)
    unfold MethodRecord.owner at h1 h2
    rw [heq, h1] at h2
    exact hxy h2

/-- **From a run to the groups.** -/
theorem grouped_of_run {budget : VerificationBudget} {seed : MethodRecord} {keys : List SymbolRef}
    {groups : Groups} (h : Evals (v.collectComponent budget seed.owner seed.signature) component)
    (hb : Evals (v.buildGroups component seed) (keys, groups)) :
    v.Grouped seed.owner (v.graph.SameSignature seed) keys groups ∧
      v.graph.UnbridgedIn seed.owner seed.name := by
  obtain ⟨ancestors, ha, -, hscan, hg, rfl⟩ := evals_buildGroups.1 hb
  have hs := Surveyed.of_run h ha
  obtain ⟨hpart, hret⟩ := hs.joinClasses_related (fun m => Iff.rfl) hg
  refine ⟨⟨fun r => ?_, ?_, hpart, hret⟩, fun x record hx hr => ?_⟩
  · rw [(v.keySetOrder_perm _).mem_iff]
    simp only [Surveyed.scanned, List.mem_flatMap, List.mem_map, exists_exists_and_eq_and]
    constructor
    · rintro ⟨cls, hcls, m, hm, rfl⟩
      exact ⟨m, hs.declared_iff.1 ⟨cls, hcls, hm⟩, rfl⟩
    · rintro ⟨m, hm, rfl⟩
      obtain ⟨cls, hcls, hmem⟩ := hs.declared_iff.2 hm
      exact ⟨cls, hcls, m, hmem, rfl⟩
  · exact (v.keySetOrder_perm _).nodup_iff.2 (nodup_scanned hs.nodup)
  · have hd : record.descriptor = x := InputCensus.descriptor_of_get hr (List.mem_singleton.2 rfl)
    subst hd
    exact (hscan record (hs.mem_classes.2 ⟨(hs.mem _).2 hx, hr⟩)).1

/-! ## The members -/

open Classical in
/-- The keys below a root. -/
noncomputable def below (groups : Groups) (root : SymbolRef) (keys : List SymbolRef) :
    List SymbolRef :=
  keys.filter fun r => Forest.Root groups r root

/-- The members are the methods whose root is that of the seed. -/
theorem evals_members {budget : VerificationBudget} {name : JString} {groups : Groups}
    {root : SymbolRef}
    {keys : List SymbolRef} (hroots : ∀ r, ∃ s, Forest.Root groups r s) :
    ∀ {family out : List SymbolRef},
    family.length ≤ budget.familyMembers →
    (Evals (fold (addMember budget name groups root) family keys) out ↔
      family.length + (below groups root keys).length ≤ budget.familyMembers ∧
      out = family ++ below groups root keys) := by
  induction keys with
  | nil => intro family out hf; simp [below, hf]
  | cons r keys ih =>
    intro family out hf
    obtain ⟨s, hs⟩ := hroots r
    have hstep : ∀ t, Evals (addMember budget name groups root family r) t ↔
        if s = root then family.length < budget.familyMembers ∧ t = family ++ [r]
            else t = family := by
      intro t
      unfold addMember
      have hfind : ∀ u, Evals (find groups r) u ↔ u = s := by
        intro u
        rw [evals_find]
        exact ⟨fun h => h.unique hs, fun h => h ▸ hs⟩
      simp only [evals_bind, evals_walkStep, true_and, exists_const, hfind, exists_eq_left, evals_ite,
        evals_pure, not_evals_fail, imp_false, not_le, not_not]
      by_cases hsr : s = root
      · simp only [hsr, if_true]
        constructor
        · rintro ⟨-, h⟩
          obtain ⟨h1, h2⟩ := h trivial
          exact ⟨h1, h2 h1⟩
        · exact fun h => ⟨fun hn => absurd rfl hn, fun _ => ⟨h.1, fun _ => h.2⟩⟩
      · simp [hsr]
    have hroot : Forest.Root groups r root ↔ s = root := ⟨fun h => hs.unique h, fun h => h ▸ hs⟩
    rw [evals_fold_cons]
    simp only [hstep]
    unfold below at ih ⊢
    rw [List.filter_cons]
    by_cases hsr : s = root
    · simp only [hsr, if_true, hroot, decide_true, List.length_cons]
      constructor
      · rintro ⟨_, ⟨hlt, rfl⟩, h⟩
        have hlen : (family ++ [r]).length ≤ budget.familyMembers := by simp; omega
        obtain ⟨h1, h2⟩ := (ih hlen).1 h
        rw [List.length_append, List.length_singleton] at h1
        exact ⟨by omega, by rw [h2, List.append_assoc, List.singleton_append]⟩
      · rintro ⟨h1, h2⟩
        have hlen : (family ++ [r]).length ≤ budget.familyMembers := by simp; omega
        refine ⟨_, ⟨by omega, rfl⟩, (ih hlen).2 ⟨?_, ?_⟩⟩
        · rw [List.length_append, List.length_singleton]; omega
        · rw [h2, List.append_assoc, List.singleton_append]
    · simp only [hsr, if_false, hroot, decide_false, exists_eq_left, Bool.false_eq_true]
      exact ih hf

/-- A COMPLETE answer is a walk that ends well. -/
theorem verifies_evals {seed : SymbolRef} {budget : VerificationBudget} {members : List SymbolRef}
    (h : v.Verifies seed budget members) : Evals (v.walk seed budget) members := by
  obtain ⟨hs, hm⟩ := h
  unfold verify at hs hm
  rcases hr : (v.walk seed budget).run budget.work 0 with ⟨e | family, work⟩
  · rw [hr] at hs
    exact absurd hs e.incomplete
  · rw [hr] at hm
    obtain rfl : family = members := hm
    exact evals_of_run (Nat.zero_le _) hr

/-- A walk that ends well is a COMPLETE answer under every large enough work budget. -/
theorem verifies_of_costs {seed : SymbolRef} {budget : VerificationBudget}
    {members : List SymbolRef} {n : ℕ}
    (h : Costs (v.walk seed budget) members n) (hn : n ≤ budget.work) :
    v.Verifies seed budget members := by
  have hr := h budget.work 0 (by omega)
  unfold Verifies verify
  rw [hr]
  exact ⟨rfl, rfl⟩

/-- The stages of a walk from a seed to its family. -/
structure Stages (v : IndependentHierarchyVerifier) (seed : MethodRecord)
    (budget : VerificationBudget)
    (component : List JString) (keys : List SymbolRef) (groups : Groups) (root : SymbolRef)
    (members : List SymbolRef) : Prop where
  declared : ∃ owner, v.graph.Defined seed.owner owner ∧ seed ∈ owner.methods ∧
    ¬ (seed.has (Access.BRIDGE ||| Access.SYNTHETIC) ∨ owner.has Access.SYNTHETIC)
  instance_ : seed.instance?
  component_ok : Evals (v.collectComponent budget seed.owner seed.signature) component
  groups_ok : Evals (v.buildGroups component seed) (keys, groups)
  root_ok : Forest.Root groups seed.ref root
  few : (below groups root keys).length ≤ budget.familyMembers
  members_eq : members = (below groups root keys).insertionSort fun a b => a.toText.le b.toText

/-- A declaration is found by its reference. -/
theorem find_declared {owner : ClassRecord} {seed : MethodRecord} (hmem : seed ∈ owner.methods) :
    owner.methods.find? (fun m => m.ref = seed.ref) = some seed := by
  obtain ⟨m, hm⟩ : ∃ m, owner.methods.find? (fun m => m.ref = seed.ref) = some m :=
    Option.isSome_iff_exists.1 (List.find?_isSome.2 ⟨seed, hmem, by simp⟩)
  have href : m.ref = seed.ref := by simpa using List.find?_some hm
  rw [hm, List.inj_on_of_nodup_map owner.keys (List.mem_of_find?_eq_some hm) hmem href]

/-- **A walk that ends well goes through its stages.** -/
theorem evals_walk {r : SymbolRef} {budget : VerificationBudget} {members : List SymbolRef} :
    Evals (v.walk r budget) members ↔ ∃ seed, seed.ref = r ∧
      ∃ component keys groups root, v.Stages seed budget component keys groups root members := by
  unfold walk
  simp only [evals_ite, not_evals_fail, imp_false, evals_bind, evals_unique]
  constructor
  · rintro ⟨hkind, h⟩
    obtain ⟨owner, hdef, hrun⟩ := h hkind
    split at hrun
    · exact absurd hrun not_evals_fail
    rename_i seed hfind
    have href : seed.ref = r := by simpa using List.find?_some hfind
    subst href
    simp only [evals_ite, not_evals_fail, imp_false] at hrun
    obtain ⟨hsupported, hrun⟩ := hrun
    have hrun := hrun hsupported
    unfold walkFrom at hrun
    simp only [evals_bind, evals_find, evals_pure] at hrun
    obtain ⟨component, hc, ⟨keys, groups⟩, hg, root, hroot, family, hfam, rfl⟩ := hrun
    obtain ⟨hgrouped, -⟩ := grouped_of_run hc hg
    obtain ⟨hfew, rfl⟩ := (evals_members hgrouped.partition.rooted (Nat.zero_le _)).1 hfam
    refine ⟨seed, rfl, component, keys, groups, root, ?_, ?_, hc, hg, hroot, ?_, rfl⟩
    · exact ⟨owner, hdef, List.mem_of_find?_eq_some hfind, fun hb => hsupported (.inr hb)⟩
    · by_contra hi
      exact hsupported (.inl hi)
    · simpa using hfew
  · rintro ⟨seed, rfl, component, keys, groups, root,
      ⟨⟨owner, hdef, hmem, hb⟩, hi, hc, hg, hroot, hfew, rfl⟩⟩
    have hkind : ¬ (seed.ref.kind ≠ .METHOD ∨ seed.ref.inputIdentity ≠ none) := by
      simp [seed.method.1, seed.method.2]
    have hsupported : ¬ (¬ seed.instance? ∨ seed.has (Access.BRIDGE ||| Access.SYNTHETIC) ∨
        owner.has Access.SYNTHETIC) := by
      rintro (h | h)
      · exact h hi
      · exact hb h
    refine ⟨hkind, fun _ => ⟨owner, hdef, ?_⟩⟩
    simp only [find_declared hmem, evals_ite, not_evals_fail, imp_false]
    refine ⟨hsupported, fun _ => ?_⟩
    unfold walkFrom
    simp only [evals_bind, evals_find, evals_pure]
    obtain ⟨hgrouped, -⟩ := grouped_of_run hc hg
    exact ⟨component, hc, (keys, groups), hg, root, hroot, _,
      (evals_members hgrouped.partition.rooted (Nat.zero_le _)).2 ⟨by simpa using hfew, rfl⟩, rfl⟩

namespace Stages

variable {seed : MethodRecord} {budget : VerificationBudget} {keys : List SymbolRef}
    {groups : Groups}
  {root : SymbolRef} {members : List SymbolRef}

/-- The seed of a verified family has its own signature. -/
theorem declares (h : v.Stages seed budget component keys groups root members) :
    v.graph.SameSignature seed seed := by
  obtain ⟨owner, hdef, hmem, -⟩ := h.declared
  exact ⟨⟨_, owner, .refl, hdef, hmem⟩, h.instance_, rfl⟩

/-- The members are the keys of the group of the seed. -/
theorem mem_members (h : v.Stages seed budget component keys groups root members) {r : SymbolRef} :
    r ∈ members ↔ r ∈ keys ∧ Forest.Root groups r root := by
  rw [h.members_eq, List.mem_insertionSort]
  simp [below]

/-- The members are the family among the declarations of the seed's signature. -/
theorem family (h : v.Stages seed budget component keys groups root members) {r : SymbolRef} :
    r ∈ members ↔ v.graph.Family seed (v.graph.SameSignature seed) r := by
  obtain ⟨hg, -⟩ := grouped_of_run h.component_ok h.groups_ok
  rw [h.mem_members, hg.mem]
  unfold HierarchyGraph.Family
  rw [← hg.partition.same]
  refine and_congr Iff.rfl ⟨fun hr => ⟨root, h.root_ok, hr⟩, ?_⟩
  rintro ⟨s, hs, hr⟩
  rw [h.root_ok.unique hs]
  exact hr

/-- No member is there twice. -/
theorem nodup (h : v.Stages seed budget component keys groups root members) : members.Nodup := by
  obtain ⟨hg, -⟩ := grouped_of_run h.component_ok h.groups_ok
  rw [h.members_eq, (List.perm_insertionSort _ _).nodup_iff]
  exact hg.once.filter _

end Stages

end IndependentHierarchyVerifier

end Libjadx
