import Libjadx.Spec.Override
import Mathlib.Data.Prod.Lex
import Mathlib.Order.WellFounded

/-!
# The closed component and its ancestors

* `collectComponent_ok`: a component that closes is the class component of its seed, every
  class of it has one definition, and every parent edge stays inside or ends at a proven
  `Object` terminal.
* `collectComponent_total`: it closes from every class of such a component, given enough
  budget, and gives the same names.
* `collectAncestors_ok`: the ancestors found are the proper ancestors, and there is no cycle.
-/

namespace Libjadx

open Metered

/-! ## Looking up the census -/

/-- What is found for a descriptor is what the census has. -/
theorem InputCensus.get_eq_some {census : InputCensus} {x : JString} {records : List ClassRecord} :
    census.get x = some records ↔ (x, records) ∈ census.classesByDescriptor := by
  have hsorted := census.sorted
  unfold InputCensus.get
  generalize census.classesByDescriptor = l at hsorted
  induction l with
  | nil => simp
  | cons e l ih =>
    obtain ⟨k, rs⟩ := e
    simp only [List.map_cons, List.pairwise_cons] at hsorted
    rw [List.lookup_cons]
    by_cases hx : x = k
    · subst hx
      have hnot : (x, records) ∉ l := fun h =>
        absurd (hsorted.1 x (List.mem_map.2 ⟨_, h, rfl⟩)) (List.lt_irrefl x)
      simp [hnot, eq_comm]
    · have hne : (x == k) = false := by simpa using hx
      simp [hne, hx, ih hsorted.2]

/-- The keys are the descriptors with records. -/
theorem InputCensus.mem_keys {census : InputCensus} {x : JString} :
    x ∈ census.keys ↔ ∃ records, census.get x = some records := by
  simp only [InputCensus.get_eq_some, InputCensus.keys, List.mem_map, Prod.exists]
  constructor
  · rintro ⟨_, records, h, rfl⟩; exact ⟨records, h⟩
  · rintro ⟨records, h⟩; exact ⟨x, records, h, rfl⟩

theorem InputCensus.nodup_keys (census : InputCensus) : census.keys.Nodup :=
  census.sorted.imp fun h he => absurd (he ▸ h) (List.lt_irrefl _)

/-- A record is kept under its own descriptor. -/
theorem InputCensus.descriptor_of_get {census : InputCensus} {x : JString}
    {records : List ClassRecord}
    {c : ClassRecord} (h : census.get x = some records) (hc : c ∈ records) : c.descriptor = x :=
  census.filed _ (InputCensus.get_eq_some.1 h) c hc

namespace HierarchyGraph

variable {g : HierarchyGraph} {sig c x y : JString}

/-- In the census are its keys. -/
theorem classify_inCensus :
    (g.classify x = .IN_CENSUS_UNIQUE ∨ g.classify x = .IN_CENSUS_DUPLICATE) ↔
    x ∈ g.census.keys := by
  rw [InputCensus.mem_keys]
  unfold classify
  cases h : g.census.get x with
  | none => simp only; split <;> simp
  | some records => simp only; split <;> simp

/-- The edges to the parents of a class are those of its only record. -/
theorem mem_parents {e : HierarchyEdge} :
    e ∈ g.parents x ↔ e.target ∈ g.targets x ∧ e = ⟨x, e.target, g.classify e.target⟩ := by
  simp only [parents, List.mem_map]
  constructor
  · rintro ⟨t, ht, rfl⟩; exact ⟨ht, rfl⟩
  · rintro ⟨ht, he⟩; exact ⟨e.target, ht, he.symm⟩

/-- An edge into the census never ends a branch. -/
theorem not_terminal_of_mem {e : HierarchyEdge} (he : e ∈ g.parents x)
    (hk : e.target ∈ g.census.keys) :
    g.objectTerminal e sig = false := by
  obtain ⟨-, he⟩ := mem_parents.1 he
  have hc : e.classification = g.classify e.target := by rw [he]
  rcases classify_inCensus.2 hk with h | h <;> simp [objectTerminal, hc, h]

/-- Only a class of the census has targets. -/
theorem targets_mem_keys (h : y ∈ g.targets x) : x ∈ g.census.keys := by
  unfold targets at h
  rw [InputCensus.mem_keys]
  cases hx : g.census.get x with
  | none => simp [hx] at h
  | some records => exact ⟨records, rfl⟩

/-- The children of a class are those that have it as a target. -/
theorem mem_children : y ∈ g.children x ↔ x ∈ g.targets y := by
  simp only [children, List.mem_filter, List.contains_iff_mem]
  exact ⟨fun h => h.2, fun h => ⟨targets_mem_keys h, h⟩⟩

theorem Linked.symm (h : g.Linked x y) : g.Linked y x := Or.symm h

theorem InComponent.symm (h : g.InComponent x y) : g.InComponent y x := by
  induction h with
  | refl => exact .refl
  | tail _ h ih => exact .head h.symm ih

end HierarchyGraph

namespace IndependentHierarchyVerifier

open HierarchyGraph

variable {v : IndependentHierarchyVerifier} {budget : VerificationBudget} {sig : JString}

@[simp] theorem evals_walkStep {u : Unit} : Evals walkStep u := evals_step

@[simp] theorem not_evals_fail {α : Type} {st : VerificationStatus} {d : JString} {r : String}
    {h : st ≠ .COMPLETE} {a : α} :
    ¬ Evals (fail st d r h : Walk α) a := not_evals_throw

/-- `unique` gives the only record of a defined class. -/
@[simp] theorem evals_unique {x : JString} {record : ClassRecord} :
    Evals (v.unique x) record ↔ v.graph.Defined x record := by
  unfold unique Defined
  split
  · rename_i h; simp [h]
  · rename_i r h; simp [h, eq_comm]
  · rename_i rs h1 h2
    simp only [not_evals_fail, h2, false_iff, Option.some.injEq]
    exact h1 record

/-! ## One round of the closure -/

/-- A parent edge the closure can pass: it ends at a proven `Object`, or in the census. -/
def Passes (v : IndependentHierarchyVerifier) (sig : JString) (e : HierarchyEdge) : Prop :=
  v.graph.objectTerminal e sig ∨ e.target ∈ v.graph.census.keys

/-- The targets a round adds to the queue. -/
def parentTargets (v : IndependentHierarchyVerifier) (sig : JString) (es : List HierarchyEdge) :
    List JString :=
  (es.filter fun e => !v.graph.objectTerminal e sig).map HierarchyEdge.target

/-- A parent is enqueued where the walk may pass to it. -/
theorem evals_enqueueParent {queue queue' : List JString} {e : HierarchyEdge}
    (he : e.classification = v.graph.classify e.target) :
    Evals (v.enqueueParent sig queue e) queue' ↔
      v.Passes sig e ∧ queue' = queue ++ v.parentTargets sig [e] := by
  unfold enqueueParent Passes parentTargets
  rw [← classify_inCensus, ← he]
  cases ht : v.graph.objectTerminal e sig with
  | true => simp [ht]
  | false => cases e.classification <;> simp [ht]

/-- So are all of the parents, one after the other. -/
theorem evals_enqueueParents {es : List HierarchyEdge} :
    ∀ {queue queue' : List JString}, (∀ e ∈ es, e.classification = v.graph.classify e.target) →
    (Evals (fold (v.enqueueParent sig) queue es) queue' ↔
      (∀ e ∈ es, v.Passes sig e) ∧ queue' = queue ++ v.parentTargets sig es) := by
  induction es with
  | nil => intro queue queue' _; simp [parentTargets]
  | cons e es ih =>
    intro queue queue' hes
    have hcons : v.parentTargets sig (e :: es) = v.parentTargets sig [e] ++
        v.parentTargets sig es := by
      simp only [parentTargets, List.filter_cons]
      split <;> simp
    simp only [evals_fold_cons, evals_enqueueParent (hes e List.mem_cons_self),
      ih fun e he => hes e (List.mem_cons_of_mem _ he), List.forall_mem_cons, hcons]
    constructor
    · rintro ⟨_, ⟨h1, rfl⟩, h2, rfl⟩
      exact ⟨⟨h1, h2⟩, List.append_assoc _ _ _⟩
    · rintro ⟨⟨h1, h2⟩, rfl⟩
      exact ⟨_, ⟨h1, rfl⟩, h2, (List.append_assoc _ _ _).symm⟩

/-- All children are enqueued. -/
theorem evals_enqueueChildren {cs : List JString} : ∀ {queue queue' : List JString},
    Evals (fold enqueueChild queue cs) queue' ↔ queue' = queue ++ cs := by
  induction cs with
  | nil => intro queue queue'; simp
  | cons x cs ih =>
    intro queue queue'
    rw [evals_fold_cons]
    simp [ih, enqueueChild]

/-- **One round.** A class already closed is dropped; a new one must have one definition and
edges that pass, and all its neighbours join the queue. -/
theorem evals_closeRound {name : JString} {queue component : List JString} {s' : Closing} :
    Evals (v.closeRound budget sig ⟨name :: queue, component⟩) s' ↔
      (name ∈ component ∧ s' = ⟨queue, component⟩) ∨
      (name ∉ component ∧ component.length < budget.visitedNodes ∧ (∃ r, v.graph.Defined name r) ∧
        (∀ e ∈ v.graph.parents name, v.Passes sig e) ∧
        s' = ⟨queue ++ v.parentTargets sig (v.graph.parents name) ++ v.graph.children name,
          component ++ [name]⟩) := by
  unfold closeRound
  have hclass : ∀ e ∈ v.graph.parents name, e.classification = v.graph.classify e.target := by
    intro e he; rw [(mem_parents.1 he).2]
  by_cases hname : name ∈ component
  · simp [hname]
  · simp only [hname, if_false, false_and, false_or, not_false_eq_true, true_and, evals_ite,
      not_evals_fail, imp_false, not_le, evals_bind, evals_unique, evals_enqueueParents hclass,
      evals_enqueueChildren, evals_pure]
    constructor
    · rintro ⟨hlen, h⟩
      obtain ⟨r, hr, _, ⟨hp, rfl⟩, _, rfl, rfl⟩ := h hlen
      exact ⟨hlen, ⟨r, hr⟩, hp, rfl⟩
    · rintro ⟨hlen, ⟨r, hr⟩, hp, rfl⟩
      exact ⟨hlen, fun _ => ⟨r, hr, _, ⟨hp, rfl⟩, _, rfl, rfl⟩⟩

/-! ## The closure -/

/-- The parents that are enqueued are those of the graph. -/
theorem mem_parentTargets {x y : JString} (hp : ∀ e ∈ v.graph.parents x, v.Passes sig e) :
    y ∈ v.parentTargets sig (v.graph.parents x) ↔ v.graph.ParentEdge x y := by
  simp only [parentTargets, List.mem_map, List.mem_filter, Bool.not_eq_true', ParentEdge]
  constructor
  · rintro ⟨e, ⟨he, ht⟩, rfl⟩
    refine ⟨(mem_parents.1 he).1, ?_⟩
    rcases hp e he with h | h
    · rw [ht] at h; exact absurd h Bool.false_ne_true
    · exact h
  · rintro ⟨hy, hk⟩
    have he : (⟨x, y, v.graph.classify y⟩ : HierarchyEdge) ∈ v.graph.parents x :=
      mem_parents.2 ⟨hy, rfl⟩
    exact ⟨_, ⟨he, not_terminal_of_mem he hk⟩, rfl⟩

/-- The neighbours of a class with a definition are what its round adds to the queue. -/
theorem linked_iff {x y : JString} (hx : ∃ r, v.graph.Defined x r)
    (hp : ∀ e ∈ v.graph.parents x, v.Passes sig e) :
    v.graph.Linked x y ↔ y ∈ v.parentTargets sig (v.graph.parents x) ∨ y ∈ v.graph.children x := by
  have hk : x ∈ v.graph.census.keys := by
    obtain ⟨r, hr⟩ := hx
    exact InputCensus.mem_keys.2 ⟨_, hr⟩
  rw [mem_parentTargets hp, mem_children]
  unfold Linked ParentEdge
  simp only [hk, and_true]

/-- The closure of `c`, halfway: every class closed so far passed its checks, and its
neighbours are closed or waiting. -/
structure Closes (v : IndependentHierarchyVerifier) (sig c : JString) (s : Closing) : Prop where
  seed : c ∈ s.queue ∨ c ∈ s.component
  inside : ∀ x, x ∈ s.queue ∨ x ∈ s.component → v.graph.InComponent c x
  defined : ∀ x ∈ s.component, ∃ r, v.graph.Defined x r
  passes : ∀ x ∈ s.component, ∀ e ∈ v.graph.parents x, v.Passes sig e
  linked : ∀ x ∈ s.component, ∀ y, v.graph.Linked x y → y ∈ s.queue ∨ y ∈ s.component
  nodup : s.component.Nodup

/-- The first state of the loop. -/
theorem closes_init (sig c : JString) : v.Closes sig c ⟨[c], []⟩ := by
  refine ⟨.inl (by simp), fun x hx => ?_, by simp, by simp, by simp, by simp⟩
  simp only [List.mem_singleton, List.not_mem_nil, or_false] at hx
  rw [hx]
  exact .refl

/-- **A round of the loop keeps its invariant**: the class that it takes is visited, and its
neighbours are queued. -/
theorem Closes.round {c : JString} {s t : Closing} (h : v.Closes sig c s) (hc : s.queue ≠ [])
    (ht : Evals (v.closeRound budget sig s) t) : v.Closes sig c t := by
  obtain ⟨queue, component⟩ := s
  obtain ⟨name, queue, rfl⟩ := List.exists_cons_of_ne_nil hc
  rcases evals_closeRound.1 ht with ⟨hname, rfl⟩ | ⟨hname, -, hdef, hpass, rfl⟩
  · -- the class was closed before
    have hdrop : ∀ x, x ∈ name :: queue ∨ x ∈ component → x ∈ queue ∨ x ∈ component := by
      rintro x (hx | hx)
      · rcases List.mem_cons.1 hx with rfl | hx
        · exact .inr hname
        · exact .inl hx
      · exact .inr hx
    exact ⟨hdrop _ h.seed, fun x hx => h.inside x (hx.imp_left (List.mem_cons_of_mem _)), h.defined,
      h.passes, fun x hx y hy => hdrop _ (h.linked x hx y hy), h.nodup⟩
  · have hin : v.graph.InComponent c name := h.inside name (.inl List.mem_cons_self)
    have hnext : ∀ y, v.graph.Linked name y → y ∈ queue ++
        v.parentTargets sig (v.graph.parents name) ++ v.graph.children name := by
      intro y hy
      rcases (linked_iff hdef hpass).1 hy with h | h <;> simp [h]
    have hmove : ∀ x, x ∈ name :: queue ∨ x ∈ component → x ∈ queue ++
        v.parentTargets sig (v.graph.parents name) ++ v.graph.children name ∨
            x ∈ component ++ [name] := by
      rintro x (hx | hx)
      · rcases List.mem_cons.1 hx with rfl | hx
        · exact .inr (by simp)
        · exact .inl (by simp [hx])
      · exact .inr (by simp [hx])
    have hsplit : ∀ x ∈ component ++ [name], x ∈ component ∨ x = name := by simp
    refine ⟨hmove _ h.seed, ?_, ?_, ?_, ?_, ?_⟩
    · rintro x (hx | hx)
      · rw [List.append_assoc, List.mem_append, List.mem_append, ← linked_iff hdef hpass] at hx
        rcases hx with hx | hx
        · exact h.inside x (.inl (List.mem_cons_of_mem _ hx))
        · exact hin.tail hx
      · rcases hsplit x hx with hx | rfl
        · exact h.inside x (.inr hx)
        · exact hin
    · intro x hx
      rcases hsplit x hx with hx | rfl
      · exact h.defined x hx
      · exact hdef
    · intro x hx
      rcases hsplit x hx with hx | rfl
      · exact h.passes x hx
      · exact hpass
    · intro x hx y hy
      rcases hsplit x hx with hx | rfl
      · exact hmove _ (h.linked x hx y hy)
      · exact .inl (hnext y hy)
    · exact List.nodup_append.2 ⟨h.nodup, List.nodup_singleton _, by
        rintro a ha b hb rfl; exact hname (List.mem_singleton.1 hb ▸ ha)⟩

/-- With nothing waiting, the closed classes are the component. -/
theorem Closes.done {c : JString} {s : Closing} (h : v.Closes sig c s) (hq : s.queue = [])
    {x : JString} :
    x ∈ s.component ↔ v.graph.InComponent c x := by
  constructor
  · exact fun hx => h.inside x (.inr hx)
  · intro hx
    induction hx with
    | refl => simpa [hq] using h.seed
    | tail _ hxy ih => simpa [hq] using h.linked _ ih _ hxy

/-- Every class of the component of `c` has one definition, and its parent edges end in the
census or at a proven `Object`. -/
def Closable (v : IndependentHierarchyVerifier) (sig c : JString) : Prop :=
  ∀ x, v.graph.InComponent c x → (∃ r, v.graph.Defined x r) ∧ v.graph.EdgesClosed sig x

/-- **The component.** A closure that ends found a closable component, and all of it. -/
theorem collectComponent_ok {c : JString} {component : List JString}
    (h : Evals (v.collectComponent budget c sig) component) :
    v.Closable sig c ∧ (∀ x, x ∈ component ↔ v.graph.InComponent c x) ∧ component.Nodup := by
  unfold collectComponent at h
  simp only [evals_bind, evals_while, evals_pure] at h
  obtain ⟨s, hs, rfl⟩ := h
  obtain ⟨hcl, hq⟩ := hs.inv (fun s t hI hc ht => Closes.round hI (by simpa using hc) ht)
    (closes_init sig c)
  have hq : s.queue = [] := by simpa using hq
  refine ⟨fun x hx => ?_, fun x => ?_, v.graph.census.nodup_keys.filter _⟩
  · have hx := (hcl.done hq).2 hx
    exact ⟨hcl.defined x hx, hcl.passes x hx⟩
  · rw [List.mem_filter, decide_eq_true_eq, ← hcl.done hq]
    refine ⟨fun h => h.2, fun hx => ⟨?_, hx⟩⟩
    obtain ⟨r, hr⟩ := hcl.defined x hx
    exact InputCensus.mem_keys.2 ⟨_, hr⟩

/-- How far a closure is from its end: classes not closed, then classes waiting. -/
def remaining (v : IndependentHierarchyVerifier) (s : Closing) : ℕ ×ₗ ℕ :=
  toLex (v.graph.census.keys.length - s.component.length, s.queue.length)

/-- **The loop ends** where the budget is that of the census. -/
theorem closes_total (budget : VerificationBudget) {c : JString} (hc : v.Closable sig c)
    (hb : v.graph.census.keys.length ≤ budget.visitedNodes) :
    ∃ s', Loops (fun s => !s.queue.isEmpty) (v.closeRound budget sig) ⟨[c], []⟩ s' := by
  refine loops_total (I := v.Closes sig c) (r := fun s t => v.remaining s < v.remaining t)
    (InvImage.wf _ wellFounded_lt) (fun s hs hq => ?_) _ (closes_init sig c)
  obtain ⟨queue, component⟩ := s
  obtain ⟨name, queue, rfl⟩ := List.exists_cons_of_ne_nil (show queue ≠ [] by simpa using hq)
  by_cases hname : name ∈ component
  · have ht : Evals (v.closeRound budget sig ⟨name :: queue, component⟩) ⟨queue, component⟩ :=
      evals_closeRound.2 (.inl ⟨hname, rfl⟩)
    refine ⟨_, ht, hs.round (by simp) ht, ?_⟩
    simp [remaining, Prod.Lex.toLex_lt_toLex]
  · obtain ⟨hdef, hpass⟩ := hc name (hs.inside name (.inl List.mem_cons_self))
    -- the class is not closed yet, so there is room for it
    have hlen : component.length + 1 ≤ v.graph.census.keys.length := by
      have hnd : (component ++ [name]).Nodup :=
          List.nodup_append.2 ⟨hs.nodup, List.nodup_singleton _, by
        rintro a ha b hb rfl; exact hname (List.mem_singleton.1 hb ▸ ha)⟩
      have hsub : component ++ [name] ⊆ v.graph.census.keys := by
        intro x hx
        obtain ⟨r, hr⟩ : ∃ r, v.graph.Defined x r := by
          rcases List.mem_append.1 hx with hx | hx
          · exact hs.defined x hx
          · rw [List.mem_singleton.1 hx]; exact hdef
        exact InputCensus.mem_keys.2 ⟨_, hr⟩
      simpa using List.Nodup.length_le_of_subset hnd hsub
    have ht : Evals (v.closeRound budget sig ⟨name :: queue, component⟩)
        ⟨queue ++ v.parentTargets sig (v.graph.parents name) ++ v.graph.children name,
            component ++ [name]⟩ :=
      evals_closeRound.2 (.inr ⟨hname, by omega, hdef, hpass, rfl⟩)
    refine ⟨_, ht, hs.round (by simp) ht, ?_⟩
    simp only [remaining, Prod.Lex.toLex_lt_toLex, List.length_append, List.length_cons, List.length_nil]
    left
    omega

/-- **The component closes from any class of it**, and gives the same names. -/
theorem collectComponent_total {budget' : VerificationBudget} {c c' : JString}
    {component : List JString}
    (h : Evals (v.collectComponent budget c sig) component) (hc : v.graph.InComponent c c')
    (hb : v.graph.census.keys.length ≤ budget'.visitedNodes) :
    Evals (v.collectComponent budget' c' sig) component := by
  obtain ⟨hclosable, hmem, -⟩ := collectComponent_ok h
  have hsame : ∀ x, v.graph.InComponent c' x ↔ v.graph.InComponent c x :=
    fun x => ⟨fun hx => hc.trans hx, fun hx => hc.symm.trans hx⟩
  obtain ⟨s', hs'⟩ := closes_total budget' (c := c')
    (fun x hx => hclosable x ((hsame x).1 hx)) hb
  have h' : Evals (v.collectComponent budget' c' sig)
      (v.graph.census.keys.filter (· ∈ s'.component)) := by
    unfold collectComponent
    simp only [evals_bind, evals_while, evals_pure]
    exact ⟨s', hs', rfl⟩
  obtain ⟨-, hmem', -⟩ := collectComponent_ok h'
  -- both are the census keys of the same classes, in key order
  have heq : ∀ l, Evals (v.collectComponent budget c sig) l → ∃ s : Closing,
      l = v.graph.census.keys.filter (· ∈ s.component) := by
    intro l hl
    unfold collectComponent at hl
    simp only [evals_bind, evals_pure] at hl
    obtain ⟨s, -, hs⟩ := hl
    exact ⟨s, hs⟩
  obtain ⟨s, rfl⟩ := heq _ h
  have : v.graph.census.keys.filter (· ∈ s.component) = v.graph.census.keys.filter
      (· ∈ s'.component) := by
    refine List.filter_congr fun x hx => ?_
    have h1 := hmem x
    have h2 := hmem' x
    rw [List.mem_filter, decide_eq_true_eq] at h1 h2
    rw [decide_eq_decide]
    constructor
    · exact fun hm => (h2.2 ((hsame x).2 (h1.1 ⟨hx, hm⟩))).2
    · exact fun hm => (h1.2 ((hsame x).1 (h2.1 ⟨hx, hm⟩))).2
  rw [this]
  exact h'

/-! ## Ancestors -/

/-- A class is climbed once, and never to where the climb began. -/
theorem evals_climbEdge {component : List JString} {name : JString} {s t : Climbing}
    {e : HierarchyEdge} :
    Evals (climbEdge component name s e) t ↔
      (e.target ∈ component → e.target ≠ name) ∧
      t = if e.target ∈ component ∧ e.target ∉ s.seen then ⟨s.queue ++ [e.target], s.seen ++
        [e.target]⟩ else s := by
  unfold climbEdge
  by_cases h1 : e.target ∈ component
  · by_cases h2 : e.target ∈ s.seen <;> simp [h1, h2] <;> tauto
  · simp [h1]

/-- What one round does to the queue and to the names seen. -/
theorem climbEdges_ok {component : List JString} {name : JString} :
    ∀ {es : List HierarchyEdge} {s t : Climbing},
    Evals (fold (climbEdge component name) s es) t →
    (∀ e ∈ es, e.target ∈ component → e.target ≠ name) ∧
    (∀ x, x ∈ t.seen ↔ x ∈ s.seen ∨ x ∈ component ∧ ∃ e ∈ es, e.target = x) ∧
    (∀ x, x ∈ t.queue ↔ x ∈ s.queue ∨ x ∈ t.seen ∧ x ∉ s.seen) := by
  intro es
  induction es with
  | nil => intro s t h; rw [evals_fold_nil] at h; subst h; simp
  | cons e es ih =>
    intro s t h
    obtain ⟨u, hu, h⟩ := evals_fold_cons.1 h
    obtain ⟨h1, h2, h3⟩ := ih h
    obtain ⟨hne, rfl⟩ := evals_climbEdge.1 hu
    refine ⟨List.forall_mem_cons.2 ⟨hne, h1⟩, fun x => ?_, fun x => ?_⟩
    · rw [h2]
      split
      · rename_i he
        rw [List.mem_append, List.mem_singleton]
        simp only [List.mem_cons, exists_eq_or_imp]
        constructor
        · rintro ((hx | rfl) | hx)
          · exact .inl hx
          · exact .inr ⟨he.1, .inl rfl⟩
          · exact .inr ⟨hx.1, .inr hx.2⟩
        · rintro (hx | ⟨hc, rfl | hx⟩)
          · exact .inl (.inl hx)
          · exact .inl (.inr rfl)
          · exact .inr ⟨hc, hx⟩
      · rename_i he
        simp only [List.mem_cons, exists_eq_or_imp]
        constructor
        · rintro (hx | hx)
          · exact .inl hx
          · exact .inr ⟨hx.1, .inr hx.2⟩
        · rintro (hx | ⟨hc, rfl | hx⟩)
          · exact .inl hx
          · by_contra hn
            exact he ⟨hc, fun hs => hn (.inl hs)⟩
          · exact .inr ⟨hc, hx⟩
    · rw [h3]
      have hmono : ∀ x, x ∈ (if e.target ∈ component ∧ e.target ∉ s.seen then
          (⟨s.queue ++ [e.target], s.seen ++ [e.target]⟩ : Climbing) else s).seen → x ∈ t.seen :=
        fun x hx => (h2 x).2 (.inl hx)
      split at hmono
      · rename_i he
        simp only [he, not_false_eq_true, and_self, if_true, List.mem_append,
          List.mem_singleton] at hmono ⊢
        by_cases hxe : x = e.target
        · subst hxe; simp [he.2, hmono]
        · simp [hxe]
      · rename_i he
        simp only [if_neg he]

/-- The climb from `name`, halfway: every name climbed so far has its parents seen. -/
structure Climbs (v : IndependentHierarchyVerifier) (component : List JString) (name : JString)
    (s : Climbing) :
    Prop where
  waiting : ∀ x ∈ s.queue, x = name ∨ x ∈ s.seen
  ancestor : ∀ x ∈ s.seen, v.graph.Ancestor name x
  inside : ∀ x ∈ s.seen, x ∈ component
  climbed : ∀ x, x = name ∨ x ∈ s.seen → x ∉ s.queue → ∀ y, v.graph.ParentEdge x y → y ∈ component →
    y ∈ s.seen ∧ y ≠ name

/-- **A round of the climb keeps its invariant.** -/
theorem Climbs.round {component : List JString} {name : JString} {s t : Climbing}
    (hin : ∀ x ∈ component, x ∈ v.graph.census.keys)
    (h : v.Climbs component name s) (hc : s.queue ≠ [])
    (ht : Evals (v.climbRound component name s) t) : v.Climbs component name t := by
  obtain ⟨queue, seen⟩ := s
  obtain ⟨current, queue, rfl⟩ := List.exists_cons_of_ne_nil hc
  obtain ⟨hne, hseen, hqueue⟩ := climbEdges_ok (show Evals (fold _ _ _) t from ht)
  simp only at hseen hqueue
  have hcur : v.graph.Ancestor name current ∨ current = name := by
    rcases h.waiting current List.mem_cons_self with h' | h'
    · exact .inr h'
    · exact .inl (h.ancestor _ h')
  have hedge : ∀ x, (∃ e ∈ v.graph.parents current, e.target = x) ↔
      x ∈ v.graph.targets current := by
    intro x
    constructor
    · rintro ⟨e, he, rfl⟩; exact (mem_parents.1 he).1
    · intro hx; exact ⟨⟨current, x, v.graph.classify x⟩, mem_parents.2 ⟨hx, rfl⟩, rfl⟩
  refine ⟨fun x hx => ?_, fun x hx => ?_, fun x hx => ?_, fun x hx hxq y hy hyc => ?_⟩
  · rcases (hqueue x).1 hx with hx | hx
    · exact (h.waiting x (List.mem_cons_of_mem _ hx)).imp_right fun h => (hseen x).2 (.inl h)
    · exact .inr hx.1
  · rcases (hseen x).1 hx with hx | ⟨hxc, hx⟩
    · exact h.ancestor x hx
    · have hstep : v.graph.ParentEdge current x := ⟨(hedge x).1 hx, hin x hxc⟩
      rcases hcur with hcur | rfl
      · exact hcur.tail hstep
      · exact .single hstep
  · rcases (hseen x).1 hx with hx | hx
    · exact h.inside x hx
    · exact hx.1
  · by_cases hxcur : x = current
    · subst hxcur
      have hy' := (hedge y).2 hy.1
      refine ⟨(hseen y).2 (.inr ⟨hyc, hy'⟩), ?_⟩
      obtain ⟨e, he, rfl⟩ := hy'
      exact hne e he hyc
    · -- a name climbed before this round
      have hxs : x = name ∨ x ∈ seen := by
        rcases hx with hx | hx
        · exact .inl hx
        · by_contra hn
          exact hxq ((hqueue x).2 (.inr ⟨hx, fun h => hn (.inr h)⟩))
      have hq : x ∉ current :: queue := by
        intro hq
        rcases List.mem_cons.1 hq with hq | hq
        · exact hxcur hq
        · exact hxq ((hqueue x).2 (.inl hq))
      obtain ⟨h1, h2⟩ := h.climbed x hxs hq y hy hyc
      exact ⟨(hseen y).2 (.inl h1), h2⟩

/-- **The ancestors.** In a component closed under parent edges, a climb that ends has seen
the proper ancestors, and the class is not its own ancestor. -/
theorem collectAncestors_ok {component seen : List JString} {name : JString}
    (hin : ∀ x ∈ component, x ∈ v.graph.census.keys)
    (hup : ∀ x ∈ component, ∀ y, v.graph.ParentEdge x y → y ∈ component) (hname : name ∈ component)
    (h : Evals (v.collectAncestors component name) seen) :
    (∀ x, x ∈ seen ↔ v.graph.Ancestor name x) ∧ ¬ v.graph.Ancestor name name := by
  unfold collectAncestors at h
  simp only [evals_bind, evals_while, evals_pure] at h
  obtain ⟨s, hs, rfl⟩ := h
  obtain ⟨hcl, hq⟩ := hs.inv (fun s t hI hc ht => Climbs.round hin hI (by simpa using hc) ht)
    (show v.Climbs component name ⟨[name], []⟩ from ⟨by simp, by simp, by simp, by simp +contextual⟩)
  have hq : s.queue = [] := by simpa using hq
  have hall : ∀ x, v.graph.Ancestor name x → x ∈ s.seen ∧ x ≠ name := by
    intro x hx
    induction hx with
    | single hxy => exact hcl.climbed name (.inl rfl) (by simp [hq]) _ hxy (hup _ hname _ hxy)
    | tail _ hxy ih =>
      exact hcl.climbed _ (.inr ih.1) (by simp [hq]) _ hxy (hup _ (hcl.inside _ ih.1) _ hxy)
  exact ⟨fun x => ⟨hcl.ancestor x, fun hx => (hall x hx).1⟩, fun hx => (hall name hx).2 rfl⟩

theorem lookup_snoc {β : Type} (l : List (JString × β)) (k x : JString) (b : β) :
    (l ++ [(k, b)]).lookup x = (l.lookup x).or (if x = k then some b else none) := by
  rw [List.lookup_append, List.lookup_cons]
  by_cases h : x = k
  · simp [h]
  · have hne : (x == k) = false := by simpa using h
    simp [h, hne]

/-- The ancestors that are kept for a class are those of its own climb. -/
theorem collectAllAncestors_ok {ancestors : Ancestors} {component : List JString}
    (h : Evals (v.collectAllAncestors component) ancestors) {x : JString} (hx : x ∈ component) :
    ∃ seen, Evals (v.collectAncestors component x) seen ∧ ancestors.of x = seen := by
  unfold collectAllAncestors at h
  let I : List JString → Ancestors → Prop := fun done a =>
    (∀ x ∈ done, ∃ seen, Evals (v.collectAncestors component x) seen ∧ a.lookup x = some seen) ∧
    ∀ x ∉ done, a.lookup x = none
  have hI := evals_fold_inv I (fun done x a b hI hb => ?_) component [] [] ancestors (by simp [I]) h
  · obtain ⟨seen, h1, h2⟩ := hI.1 x (by simpa using hx)
    exact ⟨seen, h1, by simp [Ancestors.of, h2]⟩
  · simp only [evals_bind, evals_pure] at hb
    obtain ⟨seen, hs, rfl⟩ := hb
    refine ⟨fun y hy => ?_, fun y hy => ?_⟩
    · by_cases hyd : y ∈ done
      · obtain ⟨seen', h1, h2⟩ := hI.1 y hyd
        exact ⟨seen', h1, by rw [lookup_snoc, h2, Option.some_or]⟩
      · obtain rfl : y = x := by simpa [hyd] using hy
        exact ⟨seen, hs, by rw [lookup_snoc, hI.2 y hyd, Option.none_or, if_pos rfl]⟩
    · simp only [List.mem_append, List.mem_singleton, not_or] at hy
      rw [lookup_snoc, hI.2 y hy.1, Option.none_or, if_neg hy.2]

end IndependentHierarchyVerifier

end Libjadx
