import Libjadx.Lib.MapOrder
import Libjadx.Proof.Bound
import Libjadx.Proof.SearchIndex
import Libjadx.Proof.SearchMatches

/-!
# A search does not depend on the order of the maps

The hits of a class come from one fragment, and the order of the hits ties only hits of one class.
So the maps of a view may be gone through in any order (`materialize_reordered`).
-/

namespace Libjadx


/-! ## The sources of a store -/

namespace SearchIndexStore

variable {maxBytes : ℕ} {s t : SearchIndex}

/-- Every source of one store is a source of another. -/
def FewerSources (s t : SearchIndex) : Prop :=
  ∀ o f, t.sources.lookup o = some f → s.sources.lookup o = some f

/-- A drop leaves fewer sources, -/
theorem drop_fewer (k : FragmentKey) (status : FragmentStatus) (s : SearchIndex) :
    FewerSources s (drop k status s) := by
  intro o f h
  cases k with
  | member d => exact h
  | source a => exact (lookup_erase_some h).2

/-- and so does an eviction, -/
theorem evict_fewer (n : ℕ) (s : SearchIndex) : FewerSources s (evict maxBytes n s) :=
  evict_induction (P := FewerSources s) (fun k t h o f hl => h o f (drop_fewer k EVICTED t o f hl))
    n fun _ _ h => h

/-- and a run of drops. -/
theorem drops_fewer (h : Drops s t) : FewerSources s t := by
  induction h with
  | refl => exact fun _ _ h => h
  | tail _ hk ih =>
    obtain ⟨k, rfl⟩ := hk
    exact fun o f hl => ih o f (drop_fewer k PENDING _ o f hl)

/-- A source that a call leaves was there before, or has a text and is kept under its owner. -/
theorem perform_sources (outside inside : Option SearchIndexKey) (s : SearchIndex) (op : Op)
    {o : JString}
    {f : SourceFragment} (h : (perform maxBytes outside inside s op).sources.lookup o = some f) :
    s.sources.lookup o = some f ∨ f.ownerDescriptor = o ∧ f.source.isSome = true := by
  have hmark : ∀ expected k reason, FewerSources s (mark inside expected k reason s).2 := by
    intro expected k reason
    unfold mark
    split
    · exact fun _ _ h => h
    · exact drop_fewer k _ s
  cases op with
  | initializeIndex expected catalog sourceOwners =>
    change (initializeIndex maxBytes outside inside expected catalog sourceOwners
      s).2.sources.lookup o = some f at h
    unfold initializeIndex at h
    split_ifs at h
    · exact .inl h
    · exact .inl h
    · exact .inl h
    · exact .inl h
    · exact absurd h lookup_empty_ne
  | publishMembers expected d g =>
    change (publishMembers maxBytes outside inside expected d g s).2.sources.lookup o = some f at h
    unfold publishMembers at h
    split_ifs at h
    · exact .inl h
    · exact .inl h
    · dsimp only at h
      split_ifs at h
      · exact .inl h
      · rw [putMembers_eq] at h
        have hleft := evict_fewer _ (storedMembers d g (accepted expected (.members d g) s)) o f h
        exact .inl hleft
  | publishSource expected g =>
    change (publishSource maxBytes outside inside expected g s).2.sources.lookup o = some f at h
    unfold publishSource at h
    split_ifs at h with hout hover
    · exact .inl h
    · exact .inl (hmark _ _ _ o f h)
    · exact .inl h
    · dsimp only at h
      split_ifs at h
      · exact .inl h
      · rw [putSource_eq] at h
        obtain ⟨rfl, rfl⟩ | ⟨-, hl⟩ := lookup_insert_cases (evict_fewer _ _ o f h)
        · refine .inr ⟨rfl, ?_⟩
          cases hsource : f.source with
          | none => exact absurd (by unfold oversized; rw [hsource]) hover
          | some source => rfl
        · exact .inl (lookup_erase_some hl).2
  | failMembers expected d reason => exact .inl (hmark _ _ _ o f h)
  | failSource expected a reason => exact .inl (hmark _ _ _ o f h)
  | skipSource expected a reason =>
    change (skipSource inside expected a reason s).2.sources.lookup o = some f at h
    unfold skipSource at h
    split_ifs at h
    · exact .inl h
    · exact .inl (drop_fewer (.source a)
        ⟨.SKIPPED_WITH_VERIFIED_REASON, some (boundedReason reason)⟩ s o f h)
  | beginBuild expected domains =>
    change (beginBuild inside expected domains s).2.sources.lookup o = some f at h
    unfold beginBuild at h
    dsimp only at h
    split_ifs at h <;> exact .inl h
  | finishBuild expected domains =>
    change (finishBuild inside expected domains s).2.sources.lookup o = some f at h
    unfold finishBuild at h
    dsimp only at h
    split_ifs at h <;> exact .inl h
  | resetDomains expected domains =>
    change (resetDomains inside expected domains s).2.sources.lookup o = some f at h
    unfold resetDomains at h
    dsimp only at h
    split_ifs at h
    · exact .inl h
    · exact .inl (drops_fewer ((resetMember_drops _ s).trans (resetSource_drops _ _)) o f h)
    · exact .inl (drops_fewer (resetSource_drops _ s) o f h)
    · exact .inl (drops_fewer (resetMember_drops _ s) o f h)
    · exact .inl h

/-- **The sources of a store have a text, and are kept under their owner.** -/
theorem Reachable.sources_kept (h : Reachable maxBytes s) {o : JString} {f : SourceFragment}
    (hl : s.sources.lookup o = some f) : f.ownerDescriptor = o ∧ f.source.isSome = true := by
  induction h with
  | refl => exact absurd hl lookup_empty_ne
  | tail _ hstep ih =>
    obtain ⟨outside, inside, op, rfl⟩ := hstep
    exact (perform_sources outside inside _ op hl).elim ih fun hnew => hnew

end SearchIndexStore

namespace SearchService

open MapOrder

/-! ## The order of the hits -/

/-- The class of a hit. -/
def ownerDescriptor (h : Hit) : JString :=
  ((h.ref <|> h.sourceOwnerRef).map SymbolRef.originalClassDescriptor).getD []

/-- Comparing texts is transitive. -/
theorem compareTo_trans : Std.TransCmp compareTo := by
  refine Std.TransOrd.compareOfLessAndEq_of_lt_trans_of_lt_iff (α := JString) ?_ ?_
  · intro a b c
    exact List.lt_trans
  · intro a b
    refine ⟨fun hab => ⟨fun hba => List.lt_irrefl a (List.lt_trans hab hba), ?_⟩,
      fun ⟨hba, hne⟩ => ?_⟩
    · rintro rfl
      exact List.lt_irrefl a hab
    · by_contra hab
      exact hne (List.le_antisymm hba hab)

/-- What is compared by an image is compared transitively. -/
theorem transCmp_on {α β : Type} {cmp : β → β → Ordering} (h : Std.TransCmp cmp) (f : α → β) :
    Std.TransCmp fun a b => cmp (f a) (f b) where
  eq_swap := h.eq_swap
  isLE_trans h₁ h₂ := h.isLE_trans h₁ h₂

/-- So comparing hits is. -/
theorem compareHits_trans : Std.TransCmp compareHits := by
  have htext : ∀ f : Hit → JString, Std.TransCmp fun a b => compareTo (f a) (f b) :=
    transCmp_on compareTo_trans
  have hint : ∀ f : Hit → ℤ, Std.TransCmp fun a b => compare (f a) (f b) :=
    transCmp_on inferInstance
  have := htext fun h => h.domain.name
  have := htext ownerDescriptor
  have := htext (refText SymbolRef.originalName)
  have := htext (refText SymbolRef.originalDescriptor)
  have := htext fun h => h.sourceSnapshotId.getD []
  have := hint fun h => (h.range.map SourceRange.startOffsetUtf16).getD (-1)
  have := hint fun h => (h.range.map SourceRange.endOffsetUtf16).getD (-1)
  have := htext fun h => h.displayName.getD []
  have hlex : Std.TransCmp (compareLex (fun a b : Hit => compareTo a.domain.name b.domain.name) <|
      compareLex (fun a b => compareTo (ownerDescriptor a) (ownerDescriptor b)) <|
      compareLex (fun a b => compareTo (refText SymbolRef.originalName a)
        (refText SymbolRef.originalName b)) <|
      compareLex (fun a b => compareTo (refText SymbolRef.originalDescriptor a)
        (refText SymbolRef.originalDescriptor b)) <|
      compareLex (fun a b => compareTo (a.sourceSnapshotId.getD []) (b.sourceSnapshotId.getD [])) <|
      compareLex (fun a b => compare ((a.range.map SourceRange.startOffsetUtf16).getD (-1))
        ((b.range.map SourceRange.startOffsetUtf16).getD (-1))) <|
      compareLex (fun a b => compare ((a.range.map SourceRange.endOffsetUtf16).getD (-1))
        ((b.range.map SourceRange.endOffsetUtf16).getD (-1))) fun a b =>
      compareTo (a.displayName.getD []) (b.displayName.getD [])) := inferInstance
  exact hlex

/-- Texts that compare equal are equal. -/
theorem compareTo_eq {a b : JString} (h : compareTo a b = .eq) : a = b := by
  unfold compareTo at h
  split at h
  · cases h
  · split at h
    · assumption
    · cases h

/-- The order of the hits. -/
def before (a b : Hit) : Bool := compareHits a b != .gt

/-- A hit stands before another as they compare. -/
theorem before_iff {a b : Hit} : before a b = true ↔ (compareHits a b).isLE = true := by
  unfold before
  cases compareHits a b <;> simp

/-- The order of hits is transitive, -/
theorem before_trans (a b c : Hit) (hab : before a b = true) (hbc : before b c = true) :
    before a c = true := by
  have htrans := compareHits_trans
  rw [before_iff] at *
  exact htrans.isLE_trans hab hbc

/-- and total. -/
theorem before_total (a b : Hit) : (before a b || before b a) = true := by
  have hswap : compareHits a b = (compareHits b a).swap := compareHits_trans.eq_swap
  unfold before
  rw [hswap]
  cases compareHits b a <;> rfl

/-- Hits that tie are of one domain and one class. -/
theorem tied_group {a b : Hit} (h : tied before a b = true) :
    b.domain = a.domain ∧ ownerDescriptor b = ownerDescriptor a := by
  obtain ⟨hab, hba⟩ := Bool.and_eq_true_iff.1 h
  have hswap : compareHits b a = (compareHits a b).swap := compareHits_trans.eq_swap
  have heq : compareHits a b = .eq := by
    unfold before at hab hba
    rw [hswap] at hba
    revert hab hba
    cases compareHits a b <;> simp
  unfold compareHits at heq
  obtain ⟨hdomain, heq⟩ := Ordering.then_eq_eq.1 heq
  obtain ⟨howner, -⟩ := Ordering.then_eq_eq.1 heq
  exact ⟨name_injective (compareTo_eq hdomain).symm, (compareTo_eq howner).symm⟩

/-! ## Ids -/

theorem space_kind (k : SymbolKind) : chr ' ' ∉ str "SymbolRef[kind=" ++ (match k with
    | .CLASS => str "CLASS" | .METHOD => str "METHOD" | .FIELD => str "FIELD") ++ str "," := by
  cases k <;> decide

/-- The first words of the text of a reference. -/
theorem toText_words (r : SymbolRef) :
    ∃ rest, r.toText = (str "SymbolRef[kind=" ++ (match r.kind with
    | .CLASS => str "CLASS" | .METHOD => str "METHOD" | .FIELD => str "FIELD") ++ str ",") ++
      chr ' ' ::
      ((str "originalClassDescriptor=" ++ r.originalClassDescriptor ++ str ",") ++ chr ' ' :: rest) := by
  have hcomma : str ", originalClassDescriptor=" = str "," ++ chr ' ' ::
    str "originalClassDescriptor=" := by decide
  have hcomma' : str ", inputIdentity=" = str "," ++ chr ' ' :: str "inputIdentity=" := by decide
  unfold SymbolRef.toText
  rw [hcomma, hcomma']
  simp only [List.append_assoc, List.cons_append]
  exact ⟨_, rfl⟩

/-- The text of a reference names its class. -/
theorem toText_descriptor {r s : SymbolRef} (h : r.toText = s.toText) :
    r.originalClassDescriptor = s.originalClassDescriptor := by
  have hspace : ∀ r : SymbolRef, chr ' ' ∉ str "originalClassDescriptor=" ++
      r.originalClassDescriptor ++ str "," := by
    intro r
    have hdescriptor : chr ' ' ∉ r.originalClassDescriptor :=
      SymbolCatalog.checked_notMem (SymbolCatalog.checked_descriptor r) (by decide)
        (by decide) (by decide)
    rw [List.mem_append, List.mem_append, not_or, not_or]
    exact ⟨⟨by decide, hdescriptor⟩, by decide⟩
  obtain ⟨restr, hr⟩ := toText_words r
  obtain ⟨rests, hs⟩ := toText_words s
  rw [hr, hs] at h
  obtain ⟨-, h⟩ := cut_unique (space_kind _) (space_kind _) h
  obtain ⟨h, -⟩ := cut_unique (hspace r) (hspace s) h
  exact List.append_cancel_left (List.append_cancel_right h)

/-- The id under which a step is kept. -/
def Found.id : Found → Option JString
  | .hit id _ => id
  | .fails _ => none

/-- What a step shows. -/
def Found.shown : Found → Option Hit
  | .hit _ h => some h
  | .fails _ => none

/-- A hit, with the id that its domain and its class give it. -/
inductive Tagged : Found → Prop
  | class_ (h : Hit) (hd : h.domain = .CLASS_NAME) :
    Tagged (.hit (some (str "C:" ++ ownerDescriptor h)) h)
  | member (r : SymbolRef) (h : Hit) (hd : h.domain = .MEMBER_NAME)
      (hr : ownerDescriptor h = r.originalClassDescriptor) :
      Tagged (.hit (some (str "M:" ++ r.toText)) h)
  | source (h : Hit) : Tagged (.hit none h)

/-- One id is of one domain and one class. -/
theorem tagged_id {x y : Found} (hx : Tagged x) (hy : Tagged y) {k : JString} (hkx : x.id = some k)
    (hky : y.id = some k) :
    ∃ a b, x.shown = some a ∧ y.shown = some b ∧ a.domain = b.domain ∧
      ownerDescriptor a = ownerDescriptor b := by
  cases hx with
  | class_ a ha =>
    cases hy with
    | class_ b hb =>
      have heq := (Option.some.inj hkx).trans (Option.some.inj hky).symm
      exact ⟨a, b, rfl, rfl, ha.trans hb.symm, List.append_cancel_left heq⟩
    | member r b hb hr =>
      have hheads := congrArg List.head? ((Option.some.inj hkx).trans (Option.some.inj hky).symm)
      exact absurd (Option.some.inj hheads) (by decide)
    | source b => cases hky
  | member r a ha hr =>
    cases hy with
    | class_ b hb =>
      have hheads := congrArg List.head? ((Option.some.inj hkx).trans (Option.some.inj hky).symm)
      exact absurd (Option.some.inj hheads) (by decide)
    | member r' b hb hr' =>
      have heq := (Option.some.inj hkx).trans (Option.some.inj hky).symm
      exact ⟨a, b, rfl, rfl, ha.trans hb.symm,
        by rw [hr, hr', toText_descriptor (List.append_cancel_left heq)]⟩
    | source b => cases hky
  | source a => cases hkx

/-! ## The loops -/

variable {letters : Letters} {query : SearchQuery} {regex : Option Regex}

/-- The steps of one domain and one class. -/
def inGroup (domain : Domain) (descriptor : JString) (x : Found) : Bool :=
  x.shown.any fun h => h.domain == domain && ownerDescriptor h == descriptor

/-- The group of a hit is told by its domain and its owner. -/
theorem inGroup_hit {domain : Domain} {descriptor : JString} {id : Option JString} {h : Hit} :
    inGroup domain descriptor (.hit id h) = true ↔ h.domain = domain ∧
      ownerDescriptor h = descriptor := by
  simp [inGroup, Found.shown]

/-- What a member yields is in its owner's group. -/
theorem memberFound_group {info : SymbolInfo} : ∀ x ∈ memberFound letters query info, Tagged x ∧
    ∀ domain descriptor, inGroup domain descriptor x = true →
      info.ref.originalClassDescriptor = descriptor := by
  intro x hx
  unfold memberFound at hx
  split at hx
  · cases hx
  · obtain rfl := List.mem_singleton.1 hx
    exact ⟨.member info.ref _ rfl rfl, fun domain descriptor h => (inGroup_hit.1 h).2⟩

/-- What a class yields is tagged. -/
theorem classFound_tagged {info : ClassInfo} : ∀ x ∈ classFound letters query info, Tagged x := by
  intro x hx
  unfold classFound at hx
  split at hx
  · cases hx
  · obtain rfl := List.mem_singleton.1 hx
    exact .class_ ⟨.CLASS_NAME, some info.ref, none, _, _, _, none, none⟩ rfl

/-- A checked descriptor is that of a class reference. -/
theorem classRef_checked {descriptor : JString}
    (h : (validateClassDescriptor descriptor).isOk = true) :
    ∃ r, classRef descriptor = some r ∧ r.originalClassDescriptor = descriptor := by
  have hvalid : (SymbolFields.mk .CLASS descriptor none none none).validate.isOk = true := by
    obtain ⟨u, hu⟩ : ∃ u, validateClassDescriptor descriptor = .ok u := by
      cases hv : validateClassDescriptor descriptor with
      | ok u => exact ⟨u, rfl⟩
      | error e =>
        rw [hv] at h
        cases h
    unfold SymbolFields.validate
    exact isOk_bind.2 ⟨u, hu, rfl⟩
  refine ⟨⟨_, hvalid⟩, ?_, rfl⟩
  unfold classRef
  exact dif_pos hvalid

/-- What the store admits of a source: a text, and a class that owns it. -/
def Readable (fragment : SourceFragment) : Prop :=
  fragment.source.isSome = true ∧ ∃ r : SymbolRef, r.originalClassDescriptor =
    fragment.ownerDescriptor

/-- What a source yields is in its owner's group. -/
theorem sourceFound_group {fragment : SourceFragment} (hread : Readable fragment) :
    ∀ x ∈ sourceFound letters query regex fragment, Tagged x ∧
      ∀ domain descriptor, inGroup domain descriptor x = true →
        fragment.ownerDescriptor = descriptor := by
  obtain ⟨hsource, r, hr⟩ := hread
  obtain ⟨source, hsource⟩ := Option.isSome_iff_exists.1 hsource
  obtain ⟨owner, howner, hdescriptor⟩ := classRef_checked (hr ▸ SymbolCatalog.checked_descriptor r)
  intro x hx
  unfold sourceFound at hx
  rw [hsource, howner] at hx
  obtain ⟨range, -, rfl⟩ := List.mem_map.1 hx
  exact ⟨.source _, fun domain descriptor h => hdescriptor.symm.trans (inGroup_hit.1 h).2⟩

/-! ## The limits -/

/-- **What is collected is what was found, unless it is too much.** -/
theorem collect_eq {found : List Found} (hfound : ∀ x ∈ found, Tagged x) (seen : List JString)
    {hits : List Hit} {bytes : ℕ}
    (hcount : hits.length ≤ MAX_HITS) (hbytes : bytes ≤ MAX_HIT_BYTES) :
      collect found seen hits bytes =
      let added := (firsts Found.id found seen).filterMap Found.shown
      if hits.length + added.length ≤ MAX_HITS ∧
        bytes + (added.map hitBytes).sum ≤ MAX_HIT_BYTES then .ok (hits ++ added)
      else .error (.search .tooManyMatches) := by
  induction found generalizing seen hits bytes with
  | nil =>
    have hnil : firsts Found.id ([] : List Found) seen = [] := rfl
    simp [collect, hnil, hcount, hbytes]
  | cons x found ih =>
    have htail := ih fun y hy => hfound y (List.mem_cons_of_mem _ hy)
    obtain ⟨id, h, rfl⟩ : ∃ id h, x = .hit id h := by
      cases hfound x List.mem_cons_self <;> exact ⟨_, _, rfl⟩
    have hid : Found.id (.hit id h) = id := rfl
    rw [firsts_cons, hid]
    rw [collect]
    by_cases hseen : id.any seen.contains = true
    · rw [if_pos hseen, if_pos hseen]
      exact htail seen hcount hbytes
    · rw [if_neg hseen, if_neg hseen]
      generalize id.toList ++ seen = seen' at htail ⊢
      have hshown : (Found.hit id h :: firsts Found.id found seen').filterMap Found.shown =
          h :: (firsts Found.id found seen').filterMap Found.shown := rfl
      simp only [hshown, List.length_cons, List.map_cons, List.sum_cons]
      by_cases hover : MAX_HITS ≤ hits.length ∨ MAX_HIT_BYTES < bytes + hitBytes h
      · rw [if_pos hover, if_neg (by omega)]
      · rw [if_neg hover, htail seen' (by rw [List.length_append, List.length_singleton]; omega)
          (by omega)]
        simp only [List.length_append, List.length_singleton, List.append_assoc, List.singleton_append]
        refine if_congr ?_ rfl rfl
        omega

/-! ## Other orders of the maps -/

/-- A view whose fragments are kept under the class they are of. -/
structure Keyed (v : SearchIndexStore.View) : Prop where
  members : ∀ e ∈ v.members.entries, ∀ info ∈ e.2, info.ref.originalClassDescriptor = e.1
  sources : ∀ e ∈ v.sources.entries, e.2.ownerDescriptor = e.1
  readable : ∀ e ∈ v.sources.entries, Readable e.2

variable {v : SearchIndexStore.View} {members : Table (List SymbolInfo)}
    {sources : Table SourceFragment}

/-- A view whose maps are permuted is keyed as before. -/
theorem Keyed.reordered (h : Keyed v) (hm : v.members.entries.Perm members.entries)
    (hs : v.sources.entries.Perm sources.entries) :
    Keyed { v with members := members, sources := sources } :=
  ⟨fun e he => h.members e (hm.mem_iff.2 he), fun e he => h.sources e (hs.mem_iff.2 he),
    fun e he => h.readable e (hs.mem_iff.2 he)⟩

/-- **Whatever is found in a domain is tagged.** -/
theorem domainFound_tagged (h : Keyed v) (domain : Domain) :
    ∀ x ∈ domainFound letters query regex v domain, Tagged x := by
  intro x hx
  cases domain with
  | CLASS_NAME =>
    obtain ⟨info, -, hx⟩ := List.mem_flatMap.1 hx
    exact classFound_tagged x hx
  | MEMBER_NAME =>
    obtain ⟨e, -, hx⟩ := List.mem_flatMap.1 hx
    obtain ⟨info, -, hx⟩ := List.mem_flatMap.1 hx
    exact (memberFound_group x hx).1
  | SOURCE_TEXT =>
    obtain ⟨e, he, hx⟩ := List.mem_flatMap.1 hx
    exact (sourceFound_group (h.readable e he) x hx).1
  | STRING_LITERAL => cases hx

/-- What the loops find of one class comes in the same order for every order of the maps. -/
theorem domainFound_reordered (h : Keyed v) (hm : v.members.entries.Perm members.entries)
    (hs : v.sources.entries.Perm sources.entries) (domain group : Domain) (descriptor : JString) :
    (domainFound letters query regex v domain).filter (inGroup group descriptor) =
      (domainFound letters query regex { v with members := members, sources := sources } domain).filter
        (inGroup group descriptor) := by
  cases domain with
  | CLASS_NAME => rfl
  | STRING_LITERAL => rfl
  | MEMBER_NAME =>
    unfold domainFound
    rw [List.filter_flatMap, List.filter_flatMap]
    refine flatMap_perm hm (c := descriptor) fun e he hne => ?_
    rw [List.filter_eq_nil_iff]
    intro x hx hin
    obtain ⟨info, hinfo, hx⟩ := List.mem_flatMap.1 hx
    exact hne ((h.members e he info hinfo).symm.trans ((memberFound_group x hx).2 group descriptor hin))
  | SOURCE_TEXT =>
    unfold domainFound
    rw [List.filter_flatMap, List.filter_flatMap]
    refine flatMap_perm hs (c := descriptor) fun e he hne => ?_
    rw [List.filter_eq_nil_iff]
    intro x hx hin
    exact hne ((h.sources e he).symm.trans
      ((sourceFound_group (h.readable e he) x hx).2 group descriptor hin))

/-- The hits of the loops, each id once. -/
def added (letters : Letters) (query : SearchQuery) (regex : Option Regex)
    (v : SearchIndexStore.View) : List Hit :=
  (firsts Found.id (query.domains.flatMap (domainFound letters query regex v)) []).filterMap Found.shown

/-- A filter of what is shown is one of what was found. -/
theorem filter_shown (q : Hit → Bool) (l : List Found) :
    (l.filterMap Found.shown).filter q = (l.filter fun x => x.shown.any q).filterMap Found.shown := by
  rw [List.filter_filterMap, List.filterMap_filter]
  congr 1
  funext x
  cases hx : x.shown with
  | none => rfl
  | some h => cases hq : q h <;> simp [Option.filter, hq]

/-- The hits that tie are those of one class, and of these the first ones. -/
theorem added_ties (h : Keyed v) (a : Hit) : (added letters query regex v).filter (tied before a) =
    ((firsts Found.id ((query.domains.flatMap (domainFound letters query regex v)).filter
      (inGroup a.domain (ownerDescriptor a))) []).filter fun x =>
      x.shown.any (tied before a)).filterMap Found.shown := by
  have htag : ∀ x ∈ query.domains.flatMap (domainFound letters query regex v), Tagged x := by
    intro x hx
    obtain ⟨domain, -, hx⟩ := List.mem_flatMap.1 hx
    exact domainFound_tagged h domain x hx
  unfold added
  rw [filter_shown, ← filter_firsts, List.filter_filter]
  · congr 2
    funext x
    cases x with
    | fails e => rfl
    | hit id b =>
      have hany : (Found.hit id b).shown.any (tied before a) = tied before a b := rfl
      rw [hany]
      cases htie : tied before a b with
      | false => rfl
      | true => rw [inGroup_hit.2 (tied_group htie), Bool.true_and]
  · intro x hx y hy hpx hpy k hkx hky
    obtain ⟨c, d, hc, hd, hdomain, howner⟩ := tagged_id (htag x hx) (htag y hy) hkx hky
    unfold inGroup at hpx hpy
    rw [hc, Option.any_some, hdomain, howner] at hpx
    rw [hd, Option.any_some, hpx] at hpy
    cases hpy

/-- **A view is materialized to its hits in order, or refused for their number or size.** -/
theorem materializeView_eq (h : Keyed v) : materializeView letters query regex v =
    if (added letters query regex v).length ≤ MAX_HITS ∧
      ((added letters query regex v).map hitBytes).sum ≤ MAX_HIT_BYTES
    then .ok ((added letters query regex v).mergeSort before) else .error
      (.search .tooManyMatches) := by
  have htag : ∀ x ∈ query.domains.flatMap (domainFound letters query regex v), Tagged x := by
    intro x hx
    obtain ⟨domain, -, hx⟩ := List.mem_flatMap.1 hx
    exact domainFound_tagged h domain x hx
  unfold materializeView
  rw [collect_eq htag [] (Nat.zero_le _) (Nat.zero_le _)]
  simp only [List.length_nil, Nat.zero_add, List.nil_append]
  exact apply_ite (Except.map _) _ _ _

/-- **A search does not depend on the order of the maps**: the same hits in the same order, or the
same failure. -/
theorem materialize_reordered (letters : Letters) (query : SearchQuery) (regex : Option Regex)
    (v : SearchIndexStore.View) (h : Keyed v) (members : Table (List SymbolInfo))
    (sources : Table SourceFragment)
    (hm : v.members.entries.Perm members.entries) (hs : v.sources.entries.Perm sources.entries) :
    materializeView letters query regex v =
      materializeView letters query regex { v with members := members, sources := sources } := by
  have hties : ∀ a, (added letters query regex v).filter (tied before a) =
      (added letters query regex { v with members := members, sources := sources }).filter
          (tied before a) := by
    intro a
    rw [added_ties h, added_ties (h.reordered hm hs), List.filter_flatMap, List.filter_flatMap]
    have hdomains := funext fun domain =>
      @domainFound_reordered letters query regex v members sources h hm hs domain a.domain
        (ownerDescriptor a)
    rw [hdomains]
  have hperm : (added letters query regex v).Perm
      (added letters query regex { v with members := members, sources := sources }) :=
    perm_of_ties (fun a => (Bool.or_self _).symm.trans (before_total a a)) hties
  rw [materializeView_eq h, materializeView_eq (h.reordered hm hs), hperm.length_eq,
    (hperm.map hitBytes).sum_eq,
    mergeSort_congr before_trans before_total hties]

/-- The views of a store are such, if its members and its owners are. -/
theorem view_keyed {maxBytes : ℕ} {s : SearchIndex} (h : SearchIndexStore.Reachable maxBytes s)
    {inside expected : Option SearchIndexKey} (hv : SearchIndexStore.view inside expected s = .ok v)
    (hmembers : ∀ e ∈ v.members.entries, ∀ info ∈ e.2, info.ref.originalClassDescriptor = e.1)
    (howners : ∀ e ∈ v.sources.entries, ∃ r : SymbolRef, r.originalClassDescriptor =
      e.2.ownerDescriptor) : Keyed v := by
  have hkept : ∀ e ∈ v.sources.entries, e.2.ownerDescriptor = e.1 ∧ e.2.source.isSome = true := by
    intro e he
    obtain ⟨-, hview⟩ := SearchIndexStore.view_ok hv
    have hl : s.sources.lookup e.1 = some e.2 := by
      rw [hview] at he
      exact AList.mem_lookup_iff.2 he
    exact h.sources_kept hl
  exact ⟨hmembers, fun e he => (hkept e he).1, fun e he => ⟨(hkept e he).2, howners e he⟩⟩

namespace TwoFragments

def member (descriptor : JString)
    (h : (SymbolFields.mk .FIELD descriptor none (some (str "f")) (some (str "I"))).validate.isOk =
    true) : SymbolInfo where
  ref := ⟨_, h⟩
  originalName := some (str "f")
  originalDescriptor := some (str "I")
  displayName := str "f"
  displayQualifiedName := str "f"
  containingClass := none
  provenance := .UNAVAILABLE

/-- The fragments of two classes, each with one field of one name. -/
def first : Sigma fun _ : JString => List SymbolInfo :=
  ⟨str "La;", [member (str "La;") (by decide)]⟩

def second : Sigma fun _ : JString => List SymbolInfo :=
  ⟨str "Lb;", [member (str "Lb;") (by decide)]⟩

def tableOf (a b : Sigma fun _ : JString => List SymbolInfo) (h : a.1 ≠ b.1) :
    Table (List SymbolInfo) where
  entries := [a, b]
  nodupKeys := by simpa [List.NodupKeys, List.keys] using h

def view : SearchIndexStore.View where
  key := ⟨str "s", 1, 0, str "f"⟩
  generation := 1
  classes := []
  owners := []
  members := tableOf first second (by decide)
  sources := ∅
  memberStatus := ∅
  sourceStatus := ∅
  unfinishedBuilds := ∅

def swapped : Table (List SymbolInfo) := tableOf second first (by decide)

/-- A search for members with an `f` in their name. -/
def search : SearchQuery where
  query := str "f"
  domains := [.MEMBER_NAME]
  matchMode := some .CONTAINS
  caseSensitive := true
  pageSize := 10
  cursor := none
  strict := false
  requireComplete := false
  expectedSessionId := none
  expectedLogicalRevision := none
  query_valid := by decide
  domains_valid := by decide
  pageSize_valid := ten_valid
  expected_valid := nothing_expected
  cursor_valid := SearchQuery.no_cursor

theorem keyed : Keyed view where
  members := by
    intro e he info hinfo
    rcases List.mem_cons.1 he with rfl | he
    · obtain rfl := List.mem_singleton.1 hinfo
      rfl
    · obtain rfl := List.mem_singleton.1 he
      obtain rfl := List.mem_singleton.1 hinfo
      rfl
  sources := by
    intro e he
    cases he
  readable := by
    intro e he
    cases he

end TwoFragments

/-- Two fragments, in their two orders. -/
theorem materialize_reordered_two :
    TwoFragments.view.members.entries ≠ TwoFragments.swapped.entries ∧
    materializeView Overlap.ascii TwoFragments.search none TwoFragments.view =
      materializeView Overlap.ascii TwoFragments.search none
        { TwoFragments.view with members := TwoFragments.swapped } ∧
    (added Overlap.ascii TwoFragments.search none TwoFragments.view).length = 2 := by
  refine ⟨?_, ?_, ?_⟩
  · intro h
    exact absurd (congrArg Sigma.fst (List.cons.inj h).1) (by decide)
  · exact materialize_reordered Overlap.ascii TwoFragments.search none TwoFragments.view
      TwoFragments.keyed
      TwoFragments.swapped TwoFragments.view.sources (List.Perm.swap _ _ _) (List.Perm.refl _)
  · decide +kernel

end SearchService

end Libjadx
