import Libjadx.Proof.Families
import Libjadx.Proof.Descriptor

/-!
# What a COMPLETE answer means

* `verify_sound_iff`: the members are the override family of the seed exactly when the connected
  declarations that share its `signature()` text have its name. The text runs the name and the
  parameters together without a separator, so a method of another name can have it.
* `walk_le`: more room changes nothing.
* `verify_partition_iff`: the members give the same answer, unless a bridge or synthetic method is
  called like one of them; two answers are equal or disjoint.
-/

namespace Libjadx

open Metered

namespace IndependentHierarchyVerifier

open HierarchyGraph

variable {v : IndependentHierarchyVerifier} {sig c : JString} {component : List JString}

/-! ## Soundness -/

section Soundness

variable {seed : MethodRecord} {budget : VerificationBudget} {keys : List SymbolRef}
    {groups : Groups}
  {root : SymbolRef} {members : List SymbolRef}

/-- A reference determines the names and texts of its declaration. -/
theorem names_of_ref {m m' : MethodRecord} (h : m.ref = m'.ref) :
    m.name = m'.name ∧ m.descriptor = m'.descriptor ∧ m.owner = m'.owner := by
  simp [MethodRecord.name, MethodRecord.descriptor, MethodRecord.owner, h]

/-- Connected declarations have one return type. -/
theorem returns_of_family (h : v.Stages seed budget component keys groups root members)
    {m : MethodRecord}
    (hm : v.graph.Family seed (v.graph.SameSignature seed) m.ref) : m.returns = seed.returns := by
  obtain ⟨hg, -⟩ := grouped_of_run h.component_ok h.groups_ok
  let f : SymbolRef → JString := fun r =>
    (r.originalDescriptor.getD []).drop ((r.originalDescriptor.getD []).indexOf (chr ')') + 1)
  have hf : ∀ r s, v.graph.RelatedRefs seed.owner (v.graph.SameSignature seed) r s → f r = f s := by
    rintro r s ⟨a, b, rfl, rfl, ha, hb, hab⟩
    by_cases hne : a = b
    · rw [hne]
    · exact hg.returns a b ha hb hab hne
  exact (Forest.eqvGen_eq hf hm.2).symm

/-- When names agree, connected declarations of the signature are the seed's method. -/
theorem sameMethod_of_family (h : v.Stages seed budget component keys groups root members)
    (hn : v.graph.NamesAgree seed) {m : MethodRecord} (hm : v.graph.SameSignature seed m)
    (hf : v.graph.Family seed (v.graph.SameSignature seed) m.ref) :
    v.graph.SameMethod seed m ∧ m.descriptor = seed.descriptor := by
  have hname := hn m hm hf
  have hdesc := MethodRecord.descriptor_of_signature hm.2.2 hname (returns_of_family h hf)
  exact ⟨⟨hm.1, hm.2.1, hname, by rw [hdesc]⟩, hdesc⟩

/-- The same method has the same signature. -/
theorem sameSignature_of_sameMethod {m : MethodRecord} (h : v.graph.SameMethod seed m) :
    v.graph.SameSignature seed m :=
  ⟨h.1, h.2.1, MethodRecord.signature_of_parameters h.2.2.1 h.2.2.2⟩

/-- When names agree, both notions of a declaration give one family. -/
theorem family_iff (h : v.Stages seed budget component keys groups root members)
    (hn : v.graph.NamesAgree seed) {r : SymbolRef} :
    v.graph.Family seed (v.graph.SameSignature seed) r ↔ v.graph.Family seed
      (v.graph.SameMethod seed) r := by
  constructor
  · rintro ⟨⟨m, hm, rfl⟩, hconn⟩
    refine ⟨⟨m, (sameMethod_of_family h hn hm ⟨⟨m, hm, rfl⟩, hconn⟩).1, rfl⟩, ?_⟩
    refine Forest.eqvGen_of_connected (fun x y hx hy hxy => ?_) hconn (.refl _)
    obtain ⟨a, b, rfl, rfl, ha, hb, hab⟩ := hxy
    exact ⟨a, b, rfl, rfl, (sameMethod_of_family h hn ha ⟨⟨a, ha, rfl⟩, hx⟩).1,
      (sameMethod_of_family h hn hb ⟨⟨b, hb, rfl⟩, hy⟩).1, hab⟩
  · rintro ⟨⟨m, hm, rfl⟩, hconn⟩
    refine ⟨⟨m, sameSignature_of_sameMethod hm, rfl⟩, hconn.mono fun x y hxy => ?_⟩
    obtain ⟨a, b, ha, hb, hda, hdb, hab⟩ := hxy
    exact ⟨a, b, ha, hb, sameSignature_of_sameMethod hda, sameSignature_of_sameMethod hdb, hab⟩

/-- **Soundness of a COMPLETE answer.** The answer is the override family of its seed exactly
when the connected declarations that share the seed's `signature()` text have its name. -/
theorem verify_sound_iff {r : SymbolRef} (h : v.Verifies r budget members) :
    ∃ seed : MethodRecord, seed.ref = r ∧ v.graph.Declares seed.owner seed ∧
      (v.graph.SoundFamily seed members ↔ v.graph.NamesAgree seed) := by
  obtain ⟨seed, rfl, component, keys, groups, root, hst⟩ := evals_walk.1 (verifies_evals h)
  refine ⟨seed, rfl, hst.declares.1, fun hsound m hm hf => ?_, fun hn => ?_⟩
  · obtain ⟨⟨m', hm', href⟩, -⟩ := (hsound.family m.ref).1 (hst.family.2 hf)
    rw [← (names_of_ref href).1]
    exact hm'.2.2.1
  · obtain ⟨hclos, -, -⟩ := collectComponent_ok hst.component_ok
    refine ⟨fun r => hst.family.trans (family_iff hst hn), hst.nodup, fun r hr => ?_,
      fun x hx => ?_,
      fun x hx e he => ?_⟩
    · obtain ⟨⟨m, hm, rfl⟩, hconn⟩ := hst.family.1 hr
      have hdesc := (sameMethod_of_family hst hn hm ⟨⟨m, hm, rfl⟩, hconn⟩).2
      obtain ⟨d, hd⟩ := m.has_descriptor
      obtain ⟨d', hd'⟩ := seed.has_descriptor
      simp only [MethodRecord.descriptor, hd, hd', Option.getD_some] at hdesc
      rw [hd, hd', hdesc]
    · exact (hclos x hx).1
    · refine ((hclos x hx).2 e he).imp_right fun hk => ?_
      exact hx.tail (.inl ⟨(mem_parents.1 he).1, hk⟩)

end Soundness

/-! ### A collision

`LA;` declares `f` with the descriptor `(Lx(La)b;)V`; its subclass `LB;` declares a method called
`f(Lx` with the descriptor `(La)b;)V`. Both have the `signature()` text `f(Lx(La)`. A third
class, `LC;`, may declare a synthetic method called `f(Lx`. -/

namespace Collision

def methodRef (owner name descriptor : String)
    (h : (SymbolFields.validate ⟨.METHOD, str owner, none, some (str name),
      some (str descriptor)⟩).isOk = true) : SymbolRef :=
  ⟨_, h⟩

def f : MethodRecord := ⟨methodRef "LA;" "f" "(Lx(La)b;)V" (by decide), ⟨Access.PUBLIC⟩, by decide⟩
def g : MethodRecord := ⟨methodRef "LB;" "f(Lx" "(La)b;)V" (by decide), ⟨Access.PUBLIC⟩, by decide⟩
def synthetic : MethodRecord :=
  ⟨methodRef "LC;" "f(Lx" "()V" (by decide), ⟨Access.PUBLIC ||| Access.SYNTHETIC⟩, by decide⟩

def object : JString := str "Ljava/lang/Object;"

def A : ClassRecord := ⟨str "LA;", some object, [], ⟨Access.PUBLIC⟩, [f], by decide, by decide, by decide⟩
def B : ClassRecord := ⟨str "LB;", some (str "LA;"), [],
    ⟨Access.PUBLIC⟩, [g], by decide, by decide, by decide⟩
def C : ClassRecord :=
  ⟨str "LC;", some (str "LA;"), [], ⟨Access.PUBLIC⟩, [synthetic], by decide, by decide, by decide⟩

def two : InputCensus := ⟨[(str "LA;", [A]), (str "LB;", [B])], by decide, by decide⟩
def three : InputCensus := ⟨[(str "LA;", [A]), (str "LB;", [B]), (str "LC;", [C])], by decide, by decide⟩

def verifier (census : InputCensus) : IndependentHierarchyVerifier :=
  ⟨⟨census, [object], [str "hashCode()"]⟩, id, fun _ => .refl _⟩

def budget : VerificationBudget := ⟨64, 10000, 200000, by decide, by decide, by decide⟩

theorem verifies_two : (verifier two).Verifies f.ref budget [f.ref, g.ref] := by
  unfold Verifies
  decide +kernel

theorem verifies_two_other : (verifier two).Verifies g.ref budget [f.ref, g.ref] := by
  unfold Verifies
  decide +kernel

theorem verifies_three : (verifier three).Verifies f.ref budget [f.ref, g.ref] := by
  unfold Verifies
  decide +kernel

end Collision

/-- A COMPLETE answer may hold a method of another name. -/
theorem verify_not_sound :
    ∃ (v : IndependentHierarchyVerifier) (seed : MethodRecord) (budget : VerificationBudget)
    (members : List SymbolRef), v.Verifies seed.ref budget members ∧
    ¬ v.graph.SoundFamily seed members := by
  refine ⟨Collision.verifier Collision.two, Collision.f, Collision.budget, _,
    Collision.verifies_two, fun h => ?_⟩
  obtain ⟨⟨m, hm, href⟩, -⟩ := (h.family Collision.g.ref).1 (by decide)
  have hname := hm.2.2.1
  rw [(names_of_ref href).1] at hname
  exact absurd hname (by decide)

theorem verify_sound_iff_two : ∃ seed : MethodRecord, seed.ref = Collision.f.ref ∧
    (Collision.verifier Collision.two).graph.Declares seed.owner seed ∧
    ((Collision.verifier Collision.two).graph.SoundFamily seed [Collision.f.ref, Collision.g.ref] ↔
      (Collision.verifier Collision.two).graph.NamesAgree seed) :=
  verify_sound_iff Collision.verifies_two

/-! ## Larger budgets -/

/-- **More room changes nothing.** A walk that ends well under one budget ends the same way, at
the same cost, with more visited nodes and more family members allowed. -/
theorem walk_le {b b' : VerificationBudget} (hf : b.familyMembers ≤ b'.familyMembers)
    (hn : b.visitedNodes ≤ b'.visitedNodes) (r : SymbolRef) : Le (v.walk r b) (v.walk r b') := by
  have hround : ∀ sig s, Le (v.closeRound b sig s) (v.closeRound b' sig s) := by
    intro sig s
    unfold closeRound
    split
    · exact .refl _
    · split
      · exact .refl _
      · exact Le.guard (fun h => by omega) (.refl _)
  have hmember : ∀ name groups root family ref,
      Le (addMember b name groups root family ref) (addMember b' name groups root family ref) := by
    intro name groups root family ref
    refine (Le.refl _).bind fun _ => (Le.refl _).bind fun r => ?_
    split
    · exact .refl _
    · exact Le.guard (fun h => by omega) (.refl _)
  have hfrom : ∀ owner method, Le (v.walkFrom b owner method) (v.walkFrom b' owner method) := by
    intro owner method
    unfold walkFrom collectComponent
    refine ((Le.while_ (hround _) _).bind fun _ => .refl _).bind fun _ =>
      (Le.refl _).bind fun _ => ?_
    exact (Le.refl _).bind fun _ => (Le.fold (hmember _ _ _) _ _).bind fun _ => .refl _
  unfold walk
  split
  · exact .refl _
  · refine (Le.refl _).bind fun owner => ?_
    split
    · exact .refl _
    · split
      · exact .refl _
      · exact hfrom _ _

/-- What a walk collects it collects with every larger budget. -/
theorem verifies_of_evals {r : SymbolRef} {b : VerificationBudget} {members : List SymbolRef}
    (h : Evals (v.walk r b) members) :
    ∃ b₀ : VerificationBudget, b₀.familyMembers = b.familyMembers ∧
      ∀ b' : VerificationBudget, b₀.Le b' → v.Verifies r b' members := by
  obtain ⟨n, hn⟩ := h
  refine ⟨⟨b.familyMembers, b.visitedNodes, max 1 n, b.family_ok, b.nodes_ok, le_max_left _ _⟩, rfl, ?_⟩
  rintro b' ⟨h1, h2, h3⟩
  exact verifies_of_costs (walk_le h1 h2 r _ _ hn) (le_trans (le_max_right _ _) h3)

/-! ## The partition -/

section Partition

variable {seed seed' : MethodRecord} {budget budget' : VerificationBudget}
    {component' : List JString}
  {keys keys' : List SymbolRef} {groups groups' : Groups} {root root' : SymbolRef}
  {members members' : List SymbolRef}

/-- The owner of a declared method is in the component of the class. -/
theorem inComponent_owner (h : v.graph.Declares c seed) : v.graph.InComponent c seed.owner := by
  obtain ⟨x, record, hx, hdef, hm⟩ := h
  rw [record.declared _ hm, InputCensus.descriptor_of_get hdef (List.mem_singleton.2 rfl)]
  exact hx

/-- The walk of a member goes through the same stages, if its own name passes the guard. -/
theorem Stages.member (h : v.Stages seed budget component keys groups root members)
    {m : MethodRecord}
    (hm : v.graph.SameSignature seed m) (hmem : m.ref ∈ members)
    (hname : v.graph.UnbridgedIn seed.owner m.name)
    (hf : budget.familyMembers ≤ budget'.familyMembers)
    (hn : v.graph.census.keys.length ≤ budget'.visitedNodes) :
    v.Stages m budget' component keys groups root members := by
  obtain ⟨x, record, hx, hdef, hdecl⟩ := hm.1
  have hd : record.descriptor = x := InputCensus.descriptor_of_get hdef (List.mem_singleton.2 rfl)
  have ho : m.owner = x := (record.declared m hdecl).trans hd
  refine ⟨⟨record, by rw [ho]; exact hdef, hdecl, ?_⟩, hm.2.1, ?_, ?_, (h.mem_members.1 hmem).2,
    h.few.trans hf, h.members_eq⟩
  · exact hname x record hx hdef m hdecl rfl
  · rw [hm.2.2]
    exact collectComponent_total h.component_ok (inComponent_owner hm.1) hn
  · obtain ⟨ancestors, ha, -⟩ := evals_buildGroups.1 h.groups_ok
    have hs := Surveyed.of_run h.component_ok ha
    refine buildGroups_transfer h.groups_ok hm.2.2 fun cls hcls => ?_
    obtain ⟨h1, h2⟩ := hs.mem_classes.1 hcls
    exact hname _ cls ((hs.mem _).1 h1) h2

/-- Two families that share a member are one list. -/
theorem Stages.eq (h : v.Stages seed budget component keys groups root members)
    (h' : v.Stages seed' budget' component' keys' groups' root' members') {r : SymbolRef}
    (hr : r ∈ members) (hr' : r ∈ members') : members = members' := by
  obtain ⟨⟨m, hm, rfl⟩, -⟩ := h.family.1 hr
  obtain ⟨⟨m', hm', href⟩, -⟩ := h'.family.1 hr'
  obtain ⟨hname, hdesc, howner⟩ := names_of_ref href
  have hsig : seed.signature = seed'.signature := by
    rw [← hm.2.2, ← hm'.2.2]
    simp [MethodRecord.signature, MethodRecord.arguments, hname, hdesc]
  -- one component
  obtain ⟨big, hbig⟩ : ∃ b : VerificationBudget, v.graph.census.keys.length ≤ b.visitedNodes :=
    ⟨⟨1, v.graph.census.keys.length + 1, 1, by decide, by omega, by decide⟩, Nat.le_succ _⟩
  have hc := collectComponent_total h.component_ok (inComponent_owner hm.1) hbig
  have hc' := collectComponent_total h'.component_ok (inComponent_owner hm'.1) hbig
  rw [howner, ← hsig] at hc'
  obtain rfl := hc.eq hc'
  -- one forest over one list of keys
  obtain ⟨a, ha, -, -, hg, hk⟩ := evals_buildGroups.1 h.groups_ok
  obtain ⟨a', ha', -, -, hg', hk'⟩ := evals_buildGroups.1 h'.groups_ok
  obtain rfl := ha.eq ha'
  rw [← hsig] at hg' hk'
  obtain rfl := hg.eq hg'
  obtain rfl := (h.mem_members.1 hr).2.unique (h'.mem_members.1 hr').2
  rw [h.members_eq, h'.members_eq, hk, hk']

/-- **Families partition.** Every member of a COMPLETE answer gives the same answer under a
large enough budget exactly when no declaration called like a member is a bridge or
synthetic; two COMPLETE answers are always equal or disjoint. -/
theorem verify_partition_iff {r r' : SymbolRef} (h : v.Verifies r budget members)
    (h' : v.Verifies r' budget' members') :
    ∃ seed : MethodRecord, seed.ref = r ∧ v.graph.Declares seed.owner seed ∧
      (((∀ m ∈ members, ∃ b₀ : VerificationBudget, ∀ b : VerificationBudget, b₀.Le b →
        v.Verifies m b members) ∧
        (members = members' ∨ ∀ m ∈ members, m ∉ members')) ↔ v.graph.MembersUnbridged seed) := by
  obtain ⟨seed, rfl, component, keys, groups, root, hst⟩ := evals_walk.1 (verifies_evals h)
  obtain ⟨seed', rfl, component', keys', groups', root', hst'⟩ := evals_walk.1 (verifies_evals h')
  refine ⟨seed, rfl, hst.declares.1, fun hall m hm hf => ?_, fun hn => ⟨fun r hr => ?_, ?_⟩⟩
  · obtain ⟨b₀, hb⟩ := hall.1 m.ref (hst.family.2 hf)
    obtain ⟨m', href, component₂, keys₂, groups₂, root₂, hst₂⟩ :=
      evals_walk.1 (verifies_evals (hb b₀ ⟨le_rfl, le_rfl, le_rfl⟩))
    obtain ⟨hname, -, howner⟩ := names_of_ref href
    obtain ⟨-, hunb⟩ := grouped_of_run hst₂.component_ok hst₂.groups_ok
    rw [hname, howner] at hunb
    -- the member's component is the seed's
    exact fun x record hx => hunb x record ((inComponent_owner hm.1).symm.trans hx)
  · obtain ⟨⟨m, hm, rfl⟩, hconn⟩ := hst.family.1 hr
    have hname := hn m hm ⟨⟨m, hm, rfl⟩, hconn⟩
    let wide : VerificationBudget := ⟨budget.familyMembers, v.graph.census.keys.length + 1, 1,
      budget.family_ok, by omega, le_rfl⟩
    have hw : v.Stages m wide component keys groups root members :=
      hst.member hm hr hname le_rfl (Nat.le_succ _)
    obtain ⟨b₀, -, hb⟩ := verifies_of_evals (evals_walk.2 ⟨m, rfl, component, keys, groups, root, hw⟩)
    exact ⟨b₀, hb⟩
  · by_cases hshare : ∃ r ∈ members, r ∈ members'
    · obtain ⟨r, hr, hr'⟩ := hshare
      exact .inl (hst.eq hst' hr hr')
    · exact .inr fun r hr hr' => hshare ⟨r, hr, hr'⟩

end Partition

/-- A member of a COMPLETE answer may fail under every budget: a synthetic method has its name. -/
theorem verify_not_partition :
    ∃ (v : IndependentHierarchyVerifier) (r : SymbolRef) (budget : VerificationBudget)
    (members : List SymbolRef), v.Verifies r budget members ∧
      ∃ m ∈ members, ∀ (b : VerificationBudget) (l : List SymbolRef), ¬ v.Verifies m b l := by
  refine ⟨Collision.verifier Collision.three, Collision.f.ref, Collision.budget, _,
    Collision.verifies_three,
    Collision.g.ref, by decide, fun b l h => ?_⟩
  obtain ⟨seed, href, component, keys, groups, root, hst⟩ := evals_walk.1 (verifies_evals h)
  obtain ⟨hname, -, howner⟩ := names_of_ref href
  obtain ⟨-, hunb⟩ := grouped_of_run hst.component_ok hst.groups_ok
  rw [hname, howner] at hunb
  -- `LC;` is a sibling of `LB;`
  have hBA : (Collision.verifier Collision.three).graph.ParentEdge (str "LB;") (str "LA;") := by
    unfold ParentEdge; decide
  have hCA : (Collision.verifier Collision.three).graph.ParentEdge (str "LC;") (str "LA;") := by
    unfold ParentEdge; decide
  have hC : (Collision.verifier Collision.three).graph.InComponent Collision.g.owner (str "LC;") :=
    (Relation.ReflTransGen.single (.inl hBA)).tail (.inr hCA)
  have hdef : (Collision.verifier Collision.three).graph.Defined (str "LC;") Collision.C := rfl
  exact hunb _ _ hC hdef Collision.synthetic (by decide) (by decide) (.inl (by decide))

/-- Both members give the family: none of the two is a bridge or synthetic. -/
theorem verify_partition_iff_two : ∃ seed : MethodRecord, seed.ref = Collision.f.ref ∧
    (Collision.verifier Collision.two).graph.MembersUnbridged seed ∧
    (∀ m ∈ [Collision.f.ref, Collision.g.ref], ∃ b₀ : VerificationBudget,
      ∀ b : VerificationBudget, b₀.Le b →
      (Collision.verifier Collision.two).Verifies m b [Collision.f.ref, Collision.g.ref]) := by
  obtain ⟨seed, hseed, -, hiff⟩ :=
    verify_partition_iff Collision.verifies_two Collision.verifies_two_other
  have hunbridged : (Collision.verifier Collision.two).graph.MembersUnbridged seed := by
    intro m _ _ x record _ hdefined declared hdeclared _
    have hrecord : record = Collision.A ∨ record = Collision.B := by
      have hmem := InputCensus.get_eq_some.1 hdefined
      simp only [Collision.verifier, Collision.two, List.mem_cons, Prod.mk.injEq, List.cons.injEq,
        List.not_mem_nil, or_false,
        and_true] at hmem
      exact hmem.imp And.right And.right
    rcases hrecord with rfl | rfl
    · rw [List.mem_singleton.1 hdeclared]
      decide
    · rw [List.mem_singleton.1 hdeclared]
      decide
  exact ⟨seed, hseed, hunbridged, (hiff.2 hunbridged).1⟩

end IndependentHierarchyVerifier

end Libjadx
