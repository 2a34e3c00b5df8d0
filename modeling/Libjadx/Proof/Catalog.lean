import Libjadx.Proof.Descriptor
import Libjadx.Spec.SymbolCatalog

/-!
# Walking the class catalog

* `afterFrom_eq`: the binary search finds the number of entries up to the cursor.
* `decode_encode`: a cursor comes back as its entry, with what UTF-8 keeps of the descriptor.
* `walks_iff`: **the pages hold each matching entry once and in order exactly when every entry at
  which a page is cut can be carried by a cursor.**
-/

namespace Libjadx

/-! ## Cutting a list at a predicate -/

section Cut

variable {α : Type} {p : α → Bool} {l : List α}

/-- Where `p` holds of a front of the list only, it holds of the first `countP`. -/
theorem filter_of_front (h : l.Pairwise fun a b => p b = true → p a = true) :
    l.filter p = l.take (l.countP p) ∧ l.filter (fun x => !p x) = l.drop (l.countP p) := by
  induction l with
  | nil => exact ⟨rfl, rfl⟩
  | cons a l ih =>
    obtain ⟨hfront, hl⟩ := List.pairwise_cons.1 h
    obtain ⟨htake, hdrop⟩ := ih hl
    cases ha : p a with
    | true => simp [ha, htake, hdrop]
    | false =>
      have hnone : ∀ b ∈ l, p b = false := by
        intro b hb
        cases hpb : p b with
        | false => rfl
        | true => rw [hfront b hb hpb] at ha; exact absurd ha (by simp)
      have hcount : l.countP p = 0 := List.countP_eq_zero.2 fun b hb => by simp [hnone b hb]
      rw [hcount] at htake hdrop
      have hzero : (a :: l).countP p = 0 := by simp [ha, hcount]
      rw [hzero]
      simp [ha, htake, hdrop]

/-- Where `p` holds of a front of the list only, an index is in it where it is below `countP`. -/
theorem front_iff (h : l.Pairwise fun a b => p b = true → p a = true) {i : ℕ} {a : α}
    (ha : l[i]? = some a) :
    p a = true ↔ i < l.countP p := by
  induction l generalizing i with
  | nil => simp at ha
  | cons b l ih =>
    obtain ⟨hfront, hl⟩ := List.pairwise_cons.1 h
    cases i with
    | zero =>
      obtain rfl : b = a := by simpa using ha
      cases hb : p b with
      | true => simp [hb]
      | false =>
        have hcount : l.countP p = 0 := by
          refine List.countP_eq_zero.2 fun x hx => ?_
          intro hpx
          rw [hfront x hx hpx] at hb
          exact absurd hb (by simp)
        simp [hb, hcount]
    | succ i =>
      have ha' : l[i]? = some a := by simpa using ha
      have hin : a ∈ l := List.mem_of_getElem? ha'
      rw [ih hl ha', List.countP_cons]
      cases hb : p b with
      | true => simp
      | false =>
        have hpa : p a = false := by
          cases hpa : p a with
          | false => rfl
          | true => rw [hfront a hin hpa] at hb; exact absurd hb (by simp)
        have hcount : ¬i < l.countP p := by
          rw [← ih hl ha', hpa]
          simp
        simp
        omega

end Cut

/-- Any two texts are ordered. -/
theorem JString.trichotomy (a b : JString) : a < b ∨ a = b ∨ b < a := by
  by_cases h : a < b
  · exact .inl h
  · rcases List.le_iff_lt_or_eq.1 (List.not_lt.1 h) with h | h
    · exact .inr (.inr h)
    · exact .inr (.inl h.symm)

namespace SymbolCatalog

/-! ## The order of the entries -/

/-- `a` comes before `b`. -/
def Before (a b : CatalogEntry) : Prop :=
  a.descriptor < b.descriptor ∨ a.descriptor = b.descriptor ∧ a.occurrence < b.occurrence

theorem Before.trans {a b c : CatalogEntry} (h : Before a b) (h' : Before b c) : Before a c := by
  rcases h with h | ⟨h, hn⟩ <;> rcases h' with h' | ⟨h', hn'⟩
  · exact .inl (List.lt_trans h h')
  · exact .inl (h' ▸ h)
  · exact .inl (h ▸ h')
  · exact .inr ⟨h.trans h', hn.trans hn'⟩

/-- The place of an entry. -/
def place (e : CatalogEntry) : JString × ℕ := (e.descriptor, e.occurrence)

/-- A mark does not move an entry. -/
@[simp] theorem place_marked (initial : List CatalogEntry) (e : CatalogEntry) :
    place (marked initial e) = place e := by
  unfold marked
  split <;> rfl

/-- The occurrences are counted on from the descriptors seen. -/
theorem numbered_occurrence (seen : List JString) (classes : List ClassInfo) :
    ∀ e ∈ numbered seen classes,
    seen.count e.descriptor ≤ e.occurrence ∧
      e.occurrence < (seen ++ classes.map fun info => info.ref.originalClassDescriptor).count
        e.descriptor := by
  induction classes generalizing seen with
  | nil => simp [numbered]
  | cons info classes ih =>
    intro e he
    rcases List.mem_cons.1 he with rfl | he
    · refine ⟨le_rfl, ?_⟩
      show seen.count _ < (seen ++ info.ref.originalClassDescriptor :: _).count
        info.ref.originalClassDescriptor
      rw [List.count_append, List.count_cons_self]
      omega
    · obtain ⟨hlow, hhigh⟩ := ih _ e he
      rw [List.append_assoc] at hhigh
      rw [List.count_append] at hlow
      exact ⟨by omega, hhigh⟩

/-- No two entries have the same place. -/
theorem numbered_distinct (seen : List JString) (classes : List ClassInfo) :
    ((numbered seen classes).map place).Nodup := by
  induction classes generalizing seen with
  | nil => exact List.nodup_nil
  | cons info classes ih =>
    rw [numbered, List.map_cons, List.nodup_cons]
    refine ⟨fun hin => ?_, ih _⟩
    obtain ⟨e, he, hplace⟩ := List.mem_map.1 hin
    obtain ⟨hd, hn⟩ := Prod.mk.inj hplace
    have hlow := (numbered_occurrence _ classes e he).1
    rw [hd, List.count_append] at hlow
    have hone : [info.ref.originalClassDescriptor].count info.ref.originalClassDescriptor = 1 :=
      List.count_singleton_self
    have heq : (CatalogEntry.descriptor ⟨info, seen.count info.ref.originalClassDescriptor⟩) =
      info.ref.originalClassDescriptor := rfl
    rw [heq, hone, hn] at hlow
    show False
    dsimp only at hlow
    omega

/-- What the entries are, but for their order. -/
theorem catalogEntries_perm (classes : List ClassInfo) :
    (catalogEntries classes).Perm ((numbered [] classes).map (marked (numbered [] classes))) :=
  List.mergeSort_perm _ _

/-- The order of the sort is that of the places, where they differ. -/
theorem entryLe_iff {a b : CatalogEntry} : entryLe a b = true ↔ Before a b ∨ place a = place b := by
  unfold entryLe Before place
  rw [decide_eq_true_eq, Prod.mk.injEq, Nat.le_iff_lt_or_eq]
  constructor
  · rintro (h | ⟨h, hn | hn⟩)
    · exact .inl (.inl h)
    · exact .inl (.inr ⟨h, hn⟩)
    · exact .inr ⟨h, hn⟩
  · rintro ((h | ⟨h, hn⟩) | ⟨h, hn⟩)
    · exact .inl h
    · exact .inr ⟨h, .inl hn⟩
    · exact .inr ⟨h, .inr hn⟩

/-- **The entries are in order**, each place once. -/
theorem catalogEntries_sorted (classes : List ClassInfo) :
    (catalogEntries classes).Pairwise Before := by
  have hplaces : ((catalogEntries classes).map place).Nodup := by
    have hperm := (catalogEntries_perm classes).map place
    rw [hperm.nodup_iff, List.map_map]
    have hmap : (numbered [] classes).map (place ∘ marked (numbered [] classes)) =
        (numbered [] classes).map place :=
      List.map_congr_left fun e _ => place_marked _ e
    rw [hmap]
    exact numbered_distinct [] classes
  have hle : (catalogEntries classes).Pairwise fun a b => entryLe a b = true := by
    refine List.pairwise_mergeSort (fun a b c hab hbc => ?_) (fun a b => ?_) _
    · rw [entryLe_iff] at hab hbc ⊢
      rcases hab with hab | hab <;> rcases hbc with hbc | hbc
      · exact .inl (hab.trans hbc)
      · obtain ⟨hd, hn⟩ := Prod.mk.inj hbc
        unfold Before at hab ⊢
        rw [← hd, ← hn]
        exact .inl hab
      · obtain ⟨hd, hn⟩ := Prod.mk.inj hab
        unfold Before at hbc ⊢
        rw [hd, hn]
        exact .inl hbc
      · exact .inr (hab.trans hbc)
    · rw [Bool.or_eq_true, entryLe_iff, entryLe_iff]
      rcases JString.trichotomy a.descriptor b.descriptor with h | h | h
      · exact .inl (.inl (.inl h))
      · rcases Nat.lt_trichotomy a.occurrence b.occurrence with hn | hn | hn
        · exact .inl (.inl (.inr ⟨h, hn⟩))
        · exact .inl (.inr (Prod.ext h hn))
        · exact .inr (.inl (.inr ⟨h.symm, hn⟩))
      · exact .inr (.inl (.inl h))
  have hne : (catalogEntries classes).Pairwise fun a b => place a ≠ place b :=
    List.pairwise_map.1 hplaces
  exact (hle.and hne).imp fun h => (entryLe_iff.1 h.1).resolve_right h.2

/-! ## The binary search -/

variable {entries : List CatalogEntry} {cursor : Cursor}

/-- A cursor holds of a front of the entries. -/
theorem notAfter_front (cursor : Cursor) (h : entries.Pairwise Before) :
    entries.Pairwise fun a b => notAfter cursor b = true → notAfter cursor a = true := by
  refine h.imp fun {a b} hab hb => ?_
  unfold notAfter at hb ⊢
  rw [decide_eq_true_eq] at hb ⊢
  rcases hab with hab | ⟨hab, hn⟩ <;> rcases hb with hb | ⟨hb, hm⟩
  · exact .inl (List.lt_trans hab hb)
  · exact .inl (hb ▸ hab)
  · exact .inl (hab ▸ hb)
  · exact .inr ⟨hab.trans hb, by omega⟩

/-- **The search finds the number of entries up to the cursor.** -/
theorem afterFrom_eq (h : entries.Pairwise Before) (low high : ℕ)
    (hlow : low ≤ entries.countP (notAfter cursor))
    (hhigh : entries.countP (notAfter cursor) ≤ high) (hlen : high ≤ entries.length) :
    afterFrom entries cursor low high = entries.countP (notAfter cursor) := by
  have hfront := notAfter_front cursor h
  fun_induction afterFrom entries cursor low high with
  | case1 low high hlt mid hany ih =>
    obtain ⟨e, he⟩ : ∃ e, entries[mid]? = some e := ⟨_, List.getElem?_eq_getElem (by omega)⟩
    rw [he] at hany
    have hmid := (front_iff hfront he).1 hany
    exact ih (by omega) hhigh hlen
  | case2 low high hlt mid hany ih =>
    obtain ⟨e, he⟩ : ∃ e, entries[mid]? = some e := ⟨_, List.getElem?_eq_getElem (by omega)⟩
    rw [he] at hany
    have hmid := mt (front_iff hfront he).2 hany
    exact ih hlow (by omega) (by omega)
  | case3 low high hlt => omega

/-! ## Pages -/

/-- The loop of `page` takes the first entries that pass. -/
theorem collect_eq (query : ClassQuery) (entries page : List CatalogEntry)
    (h : page.length ≤ query.pageSize) :
    collect query entries page = (page ++ (entries.filter fun e => query.passes e.info).take
      (query.pageSize - page.length),
      decide (query.pageSize - page.length < (entries.filter fun e => query.passes e.info).length)) := by
  induction entries generalizing page with
  | nil => simp [collect]
  | cons e entries ih =>
    rw [collect]
    cases hp : query.passes e.info with
    | false =>
      simp only [Bool.not_false, if_true]
      rw [ih page h]
      simp [hp]
    | true =>
      simp only [Bool.not_true, Bool.false_eq_true, if_false]
      by_cases hfull : page.length = query.pageSize
      · rw [if_pos hfull]
        simp [hp, hfull]
      · rw [if_neg hfull, ih (page ++ [e]) (by rw [List.length_append, List.length_singleton]; omega)]
        obtain ⟨n, hn⟩ : ∃ n, query.pageSize - page.length = n + 1 :=
          ⟨query.pageSize - page.length - 1, by omega⟩
        have hn' : query.pageSize - (page ++ [e]).length = n := by
          rw [List.length_append, List.length_singleton]
          omega
        rw [hn', hn]
        simp [hp]

/-! ## Cursors -/

variable {platform : Platform} {catalog : SymbolCatalog} {query : ClassQuery} {e : CatalogEntry}

theorem plain_filterHash : Plain (filterHash platform query) := plain_encodeToString _

theorem length_filterHash : (filterHash platform query).length = 43 := by
  unfold filterHash
  rw [length_encodeToString, platform.sha256_length]

/-- What holds of a loop over checks holds of each. -/
theorem isOk_forM {l : List ℕ} {f : ℕ → Except String Unit} (h : (l.forM f).isOk = true) :
    ∀ i ∈ l, (f i).isOk = true := by
  induction l with
  | nil => simp
  | cons i l ih =>
    have hcons : (i :: l).forM f = f i >>= fun _ => l.forM f := rfl
    rw [hcons] at h
    obtain ⟨u, hu, hrest⟩ := isOk_bind.1 h
    intro j hj
    rcases List.mem_cons.1 hj with rfl | hj
    · rw [hu]
      rfl
    · exact ih hrest j hj

/-- A checked descriptor: its first and its last unit, and none that is forbidden between them. -/
theorem checked_units {s : JString} (h : (validateClassDescriptor s).isOk = true) :
    s[0]? = some (chr 'L') ∧ s[s.length - 1]? = some (chr ';') ∧
      ∀ i, 1 ≤ i → i < s.length - 1 → ∀ c, s[i]? = some c → forbiddenInBody c = false := by
  unfold validateClassDescriptor at h
  split at h
  · simp [Except.isOk, Except.toBool] at h
  rename_i hends
  simp only [Bool.or_eq_true, decide_eq_true_eq, bne_iff_ne, ne_eq, not_or, not_not] at hends
  refine ⟨hends.1.2, hends.2, fun i hi hlt c hc => ?_⟩
  unfold validateObjectBody at h
  split at h
  · simp [Except.isOk, Except.toBool] at h
  have hone := isOk_forM h i (List.mem_range'_1.2 ⟨hi, by omega⟩)
  rw [hc] at hone
  split at hone
  · simp [Except.isOk, Except.toBool] at hone
  · cases hf : forbiddenInBody c with
    | false => rfl
    | true => simp [hf, Except.isOk, Except.toBool] at hone

/-- A checked descriptor holds no character that is forbidden in its body and at its ends. -/
theorem checked_notMem {s : JString} (h : (validateClassDescriptor s).isOk = true) {c : JChar}
    (hL : c ≠ chr 'L')
    (hend : c ≠ chr ';') (hc : forbiddenInBody c = true) : c ∉ s := by
  obtain ⟨hfirst, hlast, hbody⟩ := checked_units h
  intro hin
  obtain ⟨i, hi, hget⟩ := List.mem_iff_getElem.1 hin
  have hi' : s[i]? = some c := by rw [List.getElem?_eq_getElem hi, hget]
  rcases Nat.eq_zero_or_pos i with rfl | hpos
  · rw [hfirst] at hi'
    exact hL (Option.some.inj hi').symm
  by_cases hstop : i = s.length - 1
  · rw [hstop, hlast] at hi'
    exact hend (Option.some.inj hi').symm
  · rw [hbody i hpos (by omega) c hi'] at hc
    cases hc

/-- A checked descriptor holds no control character. -/
theorem checked_no_nul {s : JString} (h : (validateClassDescriptor s).isOk = true) : 0 ∉ s :=
  checked_notMem h (by decide) (by decide) (by decide)

/-- The descriptor of a reference was checked. -/
theorem checked_descriptor (r : SymbolRef) :
    (validateClassDescriptor r.originalClassDescriptor).isOk = true := by
  have hv := r.2
  unfold SymbolFields.validate at hv
  obtain ⟨u, hu, -⟩ := isOk_bind.1 hv
  show (validateClassDescriptor r.1.originalClassDescriptor).isOk = true
  rw [hu]
  rfl

variable (platform query) in
/-- The fields that come back, with what UTF-8 keeps of the descriptor. -/
theorem fields_encode (e : CatalogEntry) (hsession : isUuid catalog.sessionId) :
    splitAll 0 (platform.newString (getBytes (payload platform catalog query e))) =
      [str "1", catalog.sessionId, decimal catalog.logicalRevision, decimal catalog.publicationEpoch,
        filterHash platform query, carried e.descriptor, decimal e.occurrence] := by
  have hnul : ∀ t, carried (0 :: t) = 0 :: carried t := fun t =>
    carried_paired (s := [0]) (by decide) t
  have hcut : ∀ {s : JString}, Plain s → ∀ t, splitAll 0 (s ++ 0 :: t) = s :: splitAll 0 t :=
    fun hs t => splitAll_append hs.no_nul t
  have hdesc : 0 ∉ carried e.descriptor := by
    intro hin
    rcases mem_carried hin with h | h
    · exact absurd h (by decide)
    · exact checked_no_nul (checked_descriptor _) h
  have htext : platform.newString (getBytes (payload platform catalog query e)) =
      str "1" ++ 0 :: (catalog.sessionId ++ 0 :: (decimal catalog.logicalRevision ++
        0 :: (decimal catalog.publicationEpoch ++
        0 :: (filterHash platform query ++
            0 :: (carried e.descriptor ++ 0 :: decimal e.occurrence))))) := by
    rw [Platform.newString_getBytes]
    show carried (payload platform catalog query e) = _
    unfold payload
    rw [carried_paired plain_one.paired, hnul, carried_paired (plain_uuid hsession).paired, hnul,
      carried_paired (plain_decimal _).paired, hnul, carried_paired (plain_decimal _).paired, hnul,
      carried_paired plain_filterHash.paired, hnul, carried_plain _ (by decide), hnul,
        (plain_decimal _).carried]
  rw [htext, hcut plain_one, hcut (plain_uuid hsession), hcut (plain_decimal _),
    hcut (plain_decimal _), hcut plain_filterHash,
    splitAll_append hdesc, splitAll_plain (plain_decimal _).no_nul]

variable (platform) in
/-- **What comes back of a cursor**: the place of its entry, with what UTF-8 keeps of the
descriptor, where the filters of the query are the same to the hash. -/
theorem decode_encode (query query' : ClassQuery)
    (hhash : filterHash platform query = filterHash platform query')
    (hsession : isUuid catalog.sessionId) (hocc : e.occurrence ≤ 100000) :
    decode platform catalog query' (encode platform catalog query e) =
      if (validateClassDescriptor (carried e.descriptor)).isOk then .ok
        ⟨carried e.descriptor, e.occurrence⟩
      else .error .malformed := by
  obtain ⟨⟨hr, hr'⟩, he, he'⟩ := catalog.longs
  have hrevision : platform.parse 64 (decimal catalog.logicalRevision) = some _ :=
    platform.parse_decimal hr hr'
  have hepoch : platform.parse 64 (decimal catalog.publicationEpoch) = some _ :=
    platform.parse_decimal he he'
  have hoccurrence : platform.parse 32 (decimal e.occurrence) = some (e.occurrence : ℤ) :=
    platform.parse_decimal (by omega) (by omega)
  unfold decode encode
  rw [verify_sign (platform.mac_length _)]
  dsimp only
  rw [fields_encode platform query e hsession, ofFields, if_neg (by simp), hrevision, hepoch, hoccurrence]
  dsimp only
  rw [if_neg (by simp), hhash, if_neg (by simp; omega)]
  rfl

/-- A cursor that is taken was made with the same filters, to the hash. -/
theorem filterHash_of_decode {query' : ClassQuery} {cursor : Cursor}
    (hsession : isUuid catalog.sessionId)
    (h : decode platform catalog query' (encode platform catalog query e) = .ok cursor) :
    filterHash platform query = filterHash platform query' := by
  unfold decode encode at h
  rw [verify_sign (platform.mac_length _)] at h
  dsimp only at h
  rw [fields_encode platform query e hsession, ofFields, if_neg (by simp)] at h
  split at h
  · split at h
    · cases h
    split at h
    · cases h
    · rename_i hfields
      by_contra hne
      exact hfields (.inl hne)
  · cases h

/-- The entry fits a cursor, and its descriptor comes back. -/
def Carried (catalog : SymbolCatalog) (e : CatalogEntry) : Prop :=
  Paired e.descriptor = true ∧ (getBytes e.descriptor).length +
    (decimal catalog.logicalRevision).length +
    (decimal catalog.publicationEpoch).length + (decimal e.occurrence).length ≤ 2953

/-- **How long the payload of a cursor is.** -/
theorem length_payload (hsession : isUuid catalog.sessionId)
    (hpaired : Paired e.descriptor = true) :
    (getBytes (payload platform catalog query e)).length = 86 + (getBytes e.descriptor).length +
      (decimal catalog.logicalRevision).length + (decimal catalog.publicationEpoch).length +
      (decimal e.occurrence).length := by
  have hnul : ∀ t, (getBytes (0 :: t)).length = 1 + (getBytes t).length := by
    intro t
    have happ := getBytes_append (s := [0]) (by decide) t
    show (getBytes ([0] ++ t)).length = _
    rw [happ, List.length_append]
    rfl
  have hplain : ∀ {s : JString}, Plain s → ∀ t, (getBytes (s ++ 0 :: t)).length = s.length + 1 +
      (getBytes t).length := by
    intro s hs t
    rw [getBytes_append hs.paired, List.length_append, hs.length, hnul]
    omega
  unfold payload
  rw [hplain plain_one, hplain (plain_uuid hsession), hplain (plain_decimal _),
    hplain (plain_decimal _), hplain plain_filterHash,
    getBytes_append hpaired, List.length_append, hnul, (plain_decimal _).length,
      length_filterHash, hsession.1]
  have hlen : (str "1").length = 1 := by decide
  omega

variable (platform query) in
/-- **The constructor of the query takes the cursor** of an entry that fits. -/
theorem validCursor_encode (hsession : isUuid catalog.sessionId)
    (hpaired : Paired e.descriptor = true) :
    ClassQuery.validCursor (encode platform catalog query e) = true ↔ Carried catalog e := by
  have hlen : (encode platform catalog query e).length = _ := length_sign (platform.mac_length _)
  rw [length_payload hsession hpaired] at hlen
  have hne : (encode platform catalog query e).isEmpty = false := by
    rw [List.isEmpty_eq_false_iff, ← List.length_pos_iff]
    omega
  unfold ClassQuery.validCursor Carried
  rw [hne, Bool.not_false, Bool.true_and, decide_eq_true_eq, hlen]
  constructor
  · intro h
    exact ⟨hpaired, by omega⟩
  · rintro ⟨-, h⟩
    omega

/-! ## Walks -/

/-- The entries that the query is after. -/
def matching (catalog : SymbolCatalog) (query : ClassQuery) : List CatalogEntry :=
  catalog.entries.filter fun e => query.passes e.info

/-- The page starts with the entry `r` among those. -/
def Starts (platform : Platform) (catalog : SymbolCatalog) (query : ClassQuery) (r : ℕ) : Prop :=
  ∃ i, start platform catalog query = .ok i ∧
    (catalog.entries.drop i).filter (fun e => query.passes e.info) = (matching catalog query).drop r

variable {query' : ClassQuery} {r : ℕ}

/-- **What a page is**, from where it starts. -/
theorem page_eq (h : Starts platform catalog query r) : ∃ p, page platform catalog query = .ok p ∧
    p.items = (((matching catalog query).drop r).take query.pageSize).map CatalogEntry.info ∧
    p.nextCursor = if r + query.pageSize < (matching catalog query).length then
      (matching catalog query)[r + query.pageSize - 1]?.map (encode platform catalog query)
      else none := by
  obtain ⟨i, hi, hdrop⟩ := h
  have hcollect := collect_eq query (catalog.entries.drop i) [] (Nat.zero_le _)
  rw [hdrop, List.nil_append, List.length_nil, Nat.sub_zero] at hcollect
  refine ⟨pageOf platform catalog query (collect query (catalog.entries.drop i) []), ?_, ?_, ?_⟩
  · unfold page
    rw [hi]
    rfl
  · rw [hcollect]
    rfl
  · rw [hcollect]
    unfold pageOf
    dsimp only
    have hpos := query.pageSize_valid.1
    rw [List.length_drop]
    by_cases hlt : r + query.pageSize < (matching catalog query).length
    · have hmore : query.pageSize < (matching catalog query).length - r := by omega
      rw [if_pos hlt, decide_eq_true hmore, if_pos rfl, List.getLast?_eq_getElem?, List.length_take,
        List.length_drop,
        List.getElem?_take, List.getElem?_drop]
      have hmin : min query.pageSize ((matching catalog query).length - r) =
        query.pageSize := by omega
      have hindex : r + (query.pageSize - 1) = r + query.pageSize - 1 := by omega
      rw [hmin, if_pos (by omega), hindex]
    · have hno : ¬query.pageSize < (matching catalog query).length - r := by omega
      rw [if_neg hlt, decide_eq_false hno]
      rfl

variable (platform) in
/-- What a query keeps when a cursor is followed. -/
theorem follow_keeps {token : JString} (h : query.follow token = some query') :
    query'.cursor = some token ∧
    query'.pageSize = query.pageSize ∧ query'.passes = query.passes ∧
      filterHash platform query' = filterHash platform query := by
  unfold ClassQuery.follow at h
  split at h
  · obtain rfl := Option.some.inj h
    exact ⟨rfl, rfl, rfl, rfl⟩
  · simp at h

variable (query) in
/-- What a cursor passes over is in front. -/
theorem matching_front (hsorted : catalog.entries.Pairwise Before) (cursor : Cursor) :
    (matching catalog query).Pairwise
    fun a b => notAfter cursor b = true → notAfter cursor a = true :=
  (notAfter_front cursor hsorted).sublist List.filter_sublist

/-- **A cursor starts a page after the entries up to it.** -/
theorem starts_cursor {cursor : Cursor} {token : JString}
    (hsorted : catalog.entries.Pairwise Before)
    (hc : query.cursor = some token) (hd : decode platform catalog query token = .ok cursor) :
    Starts platform catalog query ((matching catalog query).countP (notAfter cursor)) := by
  refine ⟨catalog.entries.countP (notAfter cursor), ?_, ?_⟩
  · unfold start
    rw [hc]
    dsimp only
    rw [hd]
    show Except.ok _ = _
    rw [afterFrom_eq hsorted 0 _ (Nat.zero_le _) List.countP_le_length le_rfl]
  · rw [← (filter_of_front (notAfter_front cursor hsorted)).2,
      ← (filter_of_front (matching_front query hsorted cursor)).2]
    unfold matching
    rw [List.filter_comm]

/-- The entries up to one of them. -/
theorem countP_exact (hsorted : catalog.entries.Pairwise Before) {i : ℕ}
    (he : (matching catalog query)[i]? = some e) :
    (matching catalog query).countP (notAfter ⟨e.descriptor, e.occurrence⟩) = i + 1 := by
  have hfront := matching_front query hsorted ⟨e.descriptor, e.occurrence⟩
  have hself : notAfter ⟨e.descriptor, e.occurrence⟩ e = true := by
    unfold notAfter
    simp
  have hlow := (front_iff hfront he).1 hself
  have hle := List.countP_le_length (p := notAfter ⟨e.descriptor, e.occurrence⟩)
    (l := matching catalog query)
  by_contra hne
  -- the next one is after it
  have hnext : i + 1 < (matching catalog query).countP (notAfter ⟨e.descriptor, e.occurrence⟩) := by omega
  obtain ⟨x, hx⟩ : ∃ x, (matching catalog query)[i + 1]? = some x :=
    ⟨_, List.getElem?_eq_getElem (by omega)⟩
  have hnot := (front_iff hfront hx).2 hnext
  have hmatch : (matching catalog query).Pairwise Before := hsorted.sublist List.filter_sublist
  have hbefore : Before e x := by
    obtain ⟨hi, rfl⟩ := List.getElem?_eq_some_iff.1 he
    obtain ⟨hi', rfl⟩ := List.getElem?_eq_some_iff.1 hx
    exact List.pairwise_iff_getElem.1 hmatch i (i + 1) hi hi' (Nat.lt_succ_self i)
  unfold notAfter at hnot
  rw [decide_eq_true_eq] at hnot
  rcases hbefore with hb | ⟨hb, hn⟩ <;> rcases hnot with hx | ⟨hx, hm⟩
  · exact List.lt_irrefl _ (List.lt_trans hb hx)
  · exact List.lt_irrefl _ (hx ▸ hb)
  · exact List.lt_irrefl _ (hb ▸ hx)
  · dsimp only at hm
    omega

/-- A descriptor that does not come back stands before the entry. -/
theorem countP_lost (hsorted : catalog.entries.Pairwise Before) {i : ℕ}
    (he : (matching catalog query)[i]? = some e)
    (hlost : Paired e.descriptor = false) :
    (matching catalog query).countP (notAfter ⟨carried e.descriptor, e.occurrence⟩) ≤ i := by
  have hfront := matching_front query hsorted ⟨carried e.descriptor, e.occurrence⟩
  have hlt := carried_lt hlost
  have hnot : ¬notAfter ⟨carried e.descriptor, e.occurrence⟩ e = true := by
    unfold notAfter
    rw [decide_eq_true_eq]
    rintro (h | ⟨h, -⟩)
    · exact List.lt_irrefl _ (List.lt_trans h hlt)
    · have heq : e.descriptor = carried e.descriptor := h
      rw [← heq] at hlt
      exact List.lt_irrefl _ hlt
  have hle := mt (front_iff hfront he).2 hnot
  omega

/-- From `r` on, every entry at which a page is cut can be carried. -/
def Cuts (catalog : SymbolCatalog) (query : ClassQuery) (r : ℕ) : Prop :=
  ∀ j, r + (j + 1) * query.pageSize < (matching catalog query).length →
    ∀ e ∈ (matching catalog query)[r + (j + 1) * query.pageSize - 1]?, Carried catalog e

/-- The first cut, and the others. -/
theorem cuts_iff : Cuts catalog query r ↔ (r + query.pageSize < (matching catalog query).length →
    (∀ e ∈ (matching catalog query)[r + query.pageSize - 1]?, Carried catalog e) ∧
    Cuts catalog query (r + query.pageSize)) := by
  have hnext : ∀ j, r + query.pageSize + (j + 1) * query.pageSize = r + (j + 1 + 1) *
      query.pageSize := by
    intro j
    rw [Nat.add_mul (j + 1) 1]
    omega
  constructor
  · refine fun h hlt => ⟨fun e he => ?_, fun j hj e he => ?_⟩
    · refine h 0 ?_ e ?_
      · rwa [Nat.zero_add, Nat.one_mul]
      · rwa [Nat.zero_add, Nat.one_mul]
    · rw [hnext] at hj he
      exact h (j + 1) hj e he
  · intro h j hj e he
    have hle : query.pageSize ≤ (j + 1) * query.pageSize :=
      Nat.le_mul_of_pos_left _ (Nat.succ_pos j)
    obtain ⟨hfirst, hrest⟩ := h (by omega)
    cases j with
    | zero =>
      rw [Nat.zero_add, Nat.one_mul] at he
      exact hfirst e he
    | succ j =>
      rw [← hnext] at hj he
      exact hrest j hj e he

/-- What the walks of a catalog rest on. -/
structure Sound (catalog : SymbolCatalog) : Prop where
  session : isUuid catalog.sessionId
  sorted : catalog.entries.Pairwise Before
  occurrences : ∀ e ∈ catalog.entries, e.occurrence ≤ 100000

/-- **Where the cursor of an entry leads**: nowhere, behind the entry where it can be carried, and
not behind it where its descriptor does not come back. -/
theorem starts_next (hs : Sound catalog) {i : ℕ} (he : (matching catalog query)[i]? = some e)
    (hf : query.follow (encode platform catalog query e) = some query') :
    (Carried catalog e ∧ Starts platform catalog query' (i + 1)) ∨
      Paired e.descriptor = false ∧ ((∀ p, page platform catalog query' ≠ .ok p) ∨
        ∃ r ≤ i, Starts platform catalog query' r) := by
  obtain ⟨hcursor, hsize, hpasses, hhash⟩ := follow_keeps platform hf
  have hmatch : matching catalog query' = matching catalog query := by
    unfold matching
    rw [hpasses]
  have hin : e ∈ catalog.entries := List.mem_of_mem_filter (List.mem_of_getElem? he)
  have hdecode := decode_encode platform query query' hhash.symm hs.session (hs.occurrences e hin)
  cases hpaired : Paired e.descriptor with
  | true =>
    have hok : (validateClassDescriptor e.descriptor).isOk = true := checked_descriptor e.info.ref
    rw [carried, ofCodePoints_codePoints hpaired, if_pos hok] at hdecode
    have hstarts := starts_cursor hs.sorted hcursor hdecode
    rw [hmatch, countP_exact hs.sorted he] at hstarts
    refine .inl ⟨?_, hstarts⟩
    rw [← validCursor_encode platform query hs.session hpaired]
    unfold ClassQuery.follow at hf
    split at hf
    · assumption
    · simp at hf
  | false =>
    refine .inr ⟨rfl, ?_⟩
    split at hdecode
    · have hstarts := starts_cursor hs.sorted hcursor hdecode
      rw [hmatch] at hstarts
      exact .inr ⟨_, countP_lost hs.sorted he hpaired, hstarts⟩
    · refine .inl fun p hp => ?_
      unfold page start at hp
      rw [hcursor] at hp
      dsimp only at hp
      rw [hdecode] at hp
      simp [bind, Except.bind] at hp

/-- **No walk is too short, and one that is not too long is cut at entries that can be carried.** -/
theorem walks_length (hs : Sound catalog) {l : List ClassInfo}
    (hw : Walks platform catalog query l) :
    ∀ {r}, Starts platform catalog query r → (matching catalog query).length - r ≤ l.length ∧
      (l.length = (matching catalog query).length - r → Cuts catalog query r) := by
  induction hw with
  | @last query p hp hnone =>
    intro r hr
    obtain ⟨p', hp', hitems, hnext⟩ := page_eq hr
    obtain rfl : p' = p := Except.ok.inj (hp'.symm.trans hp)
    have hno : ¬r + query.pageSize < (matching catalog query).length := by
      intro hlt
      have hpos := query.pageSize_valid.1
      rw [hnone, if_pos hlt, List.getElem?_eq_getElem (by omega)] at hnext
      simp at hnext
    rw [hitems, List.length_map, List.length_take, List.length_drop]
    refine ⟨by omega, fun _ => ?_⟩
    rw [cuts_iff]
    exact fun hlt => absurd hlt hno
  | @next query query' p token rest hp htoken hfollow hrest ih =>
    intro r hr
    obtain ⟨p', hp', hitems, hnext⟩ := page_eq hr
    obtain rfl : p' = p := Except.ok.inj (hp'.symm.trans hp)
    rw [htoken] at hnext
    have hlt : r + query.pageSize < (matching catalog query).length := by
      by_contra hno
      rw [if_neg hno] at hnext
      simp at hnext
    rw [if_pos hlt] at hnext
    obtain ⟨e, he, rfl⟩ := Option.map_eq_some_iff.1 hnext.symm
    obtain ⟨-, hsize, hpasses, -⟩ := follow_keeps platform hfollow
    have hmatch : matching catalog query' = matching catalog query := by
      unfold matching
      rw [hpasses]
    have hpos := query.pageSize_valid.1
    have hlen : p'.items.length = query.pageSize := by
      rw [hitems, List.length_map, List.length_take, List.length_drop]
      omega
    have hindex : r + query.pageSize - 1 + 1 = r + query.pageSize := by omega
    rw [List.length_append, hlen]
    rcases starts_next hs he hfollow with ⟨hcarried, hstarts⟩ | ⟨-, hlost | ⟨r', hle, hstarts⟩⟩
    · rw [hindex] at hstarts
      obtain ⟨hshort, hcuts⟩ := ih hstarts
      rw [hmatch] at hshort hcuts
      refine ⟨by omega, fun heq => ?_⟩
      rw [cuts_iff]
      refine fun _ => ⟨fun x hx => ?_, ?_⟩
      · obtain rfl : e = x := Option.some.inj (he.symm.trans hx)
        exact hcarried
      · have hc := hcuts (by omega)
        unfold Cuts at hc ⊢
        rw [hmatch, hsize] at hc
        exact hc
    · -- the next request fails
      cases hrest with
      | last hp _ => exact absurd hp (hlost _)
      | next hp _ _ _ => exact absurd hp (hlost _)
    · obtain ⟨hshort, -⟩ := ih hstarts
      rw [hmatch] at hshort
      exact ⟨by omega, fun heq => by omega⟩

variable (platform) in
/-- **Where every cut can be carried, the walk gives the rest.** -/
theorem walks_of_cuts (hs : Sound catalog) (n : ℕ) : ∀ {query : ClassQuery} {r : ℕ},
    (matching catalog query).length - r ≤ n → Starts platform catalog query r →
      Cuts catalog query r →
      Walks platform catalog query (((matching catalog query).drop r).map CatalogEntry.info) := by
  induction n using Nat.strong_induction_on with
  | _ n ih =>
  intro query r hn hr hcuts
  obtain ⟨p, hp, hitems, hnext⟩ := page_eq hr
  have hpos := query.pageSize_valid.1
  by_cases hlt : r + query.pageSize < (matching catalog query).length
  swap
  · rw [if_neg hlt] at hnext
    have hall : ((matching catalog query).drop r).take query.pageSize =
        (matching catalog query).drop r := by
      rw [List.take_of_length_le]
      rw [List.length_drop]
      omega
    rw [hall] at hitems
    rw [← hitems]
    exact .last hp hnext
  obtain ⟨e, he⟩ : ∃ e, (matching catalog query)[r + query.pageSize - 1]? = some e :=
    ⟨_, List.getElem?_eq_getElem (by omega)⟩
  rw [if_pos hlt, he, Option.map_some] at hnext
  obtain ⟨hfirst, hrest⟩ := cuts_iff.1 hcuts hlt
  have hcarried := hfirst e he
  have hvalid := (validCursor_encode platform query hs.session hcarried.1).2 hcarried
  obtain ⟨query', hfollow⟩ : ∃ query', query.follow (encode platform catalog query e) =
      some query' := by
    unfold ClassQuery.follow
    rw [dif_pos hvalid]
    exact ⟨_, rfl⟩
  obtain ⟨-, hsize, hpasses, -⟩ := follow_keeps platform hfollow
  have hmatch : matching catalog query' = matching catalog query := by
    unfold matching
    rw [hpasses]
  have hindex : r + query.pageSize - 1 + 1 = r + query.pageSize := by omega
  rcases starts_next hs he hfollow with ⟨-, hstarts⟩ | ⟨hno, -⟩
  swap
  · rw [hcarried.1] at hno
    simp at hno
  rw [hindex] at hstarts
  have hcuts' : Cuts catalog query' (r + query.pageSize) := by
    unfold Cuts at hrest ⊢
    rw [hmatch, hsize]
    exact hrest
  have hwalk := @ih (n - 1) (by omega) query' (r + query.pageSize)
    (by rw [hmatch]; omega) hstarts hcuts'
  rw [hmatch] at hwalk
  have hsplit : ((matching catalog query).drop r).map CatalogEntry.info =
      p.items ++ ((matching catalog query).drop (r + query.pageSize)).map CatalogEntry.info := by
    rw [hitems, ← List.map_append, ← List.drop_drop, List.take_append_drop]
  rw [hsplit]
  exact .next hp hnext hfollow hwalk

/-- A catalog of classes, no descriptor too often. -/
theorem sound_ofClasses {classes : List ClassInfo} {sessionId : JString} (revision epoch : Int64)
    (hsession : isUuid sessionId)
    (hcount : ∀ d, (classes.map fun info => info.ref.originalClassDescriptor).count d ≤ 100000) :
    Sound (ofClasses classes sessionId revision epoch) where
  session := hsession
  sorted := catalogEntries_sorted classes
  occurrences := by
    intro e he
    obtain ⟨x, hx, rfl⟩ := List.mem_map.1 ((catalogEntries_perm classes).mem_iff.1 he)
    have hlt := (numbered_occurrence [] classes x hx).2
    rw [List.nil_append] at hlt
    have hmax := hcount x.descriptor
    have hsame : (marked (numbered [] classes) x).occurrence = x.occurrence :=
      congrArg Prod.snd (place_marked _ x)
    omega

/-- Without a cursor a page starts with the first entry. -/
theorem starts_first (hc : query.cursor = none) : Starts platform catalog query 0 := by
  refine ⟨0, ?_, by rw [List.drop_zero, List.drop_zero]; rfl⟩
  unfold start
  rw [hc]

/-- **A walk of the catalog.** The entries are the classes, each with its occurrence, in order;
following the cursors from the first page gives every matching entry once and in order exactly when
every entry at which a page is cut has a descriptor without lone surrogates that fits a cursor. -/
theorem walk_complete_iff (platform : Platform) (classes : List ClassInfo) (sessionId : JString)
    (revision epoch : Int64)
    (query : ClassQuery) (hsession : isUuid sessionId)
    (hcount : ∀ d, (classes.map fun info => info.ref.originalClassDescriptor).count d ≤ 100000)
    (hfirst : query.cursor = none) :
    ((ofClasses classes sessionId revision epoch).entries.Pairwise Before ∧
      (ofClasses classes sessionId revision epoch).entries.Perm
      ((numbered [] classes).map (marked (numbered [] classes)))) ∧
    (Walks platform (ofClasses classes sessionId revision epoch) query
        ((matching (ofClasses classes sessionId revision epoch) query).map CatalogEntry.info) ↔
      Cuts (ofClasses classes sessionId revision epoch) query 0) := by
  have hs := sound_ofClasses revision epoch hsession hcount
  refine ⟨⟨catalogEntries_sorted classes, catalogEntries_perm classes⟩, fun hw => ?_,
    fun hcuts => ?_⟩
  · refine (walks_length hs hw (starts_first hfirst)).2 ?_
    rw [List.length_map, Nat.sub_zero]
  · have hw := walks_of_cuts platform hs _ le_rfl (starts_first hfirst) hcuts
    rwa [List.drop_zero] at hw

/-! ## A descriptor that is lost -/

namespace LoneSurrogate

def first : SymbolRef := ⟨⟨.CLASS, [0x4C, 0xD800, 0x3B], none, none, none⟩, by decide +kernel⟩

def second : SymbolRef := ⟨⟨.CLASS, [0x4C, 0xD801, 0x3B], none, none, none⟩, by decide +kernel⟩

def classes : List ClassInfo :=
  [⟨first, str "A", str "A", str "A", false, true, none, .EXACT⟩,
    ⟨second, str "B", str "B", str "B", false, true, none, .EXACT⟩]

/-- One class at a time. -/
def oneByOne : ClassQuery := ⟨1, none, none, none, .original, true, one_valid, ClassQuery.no_cursor,
    ClassQuery.no_packagePrefix, by simp⟩

/-- No class is there more often than the limit says. -/
theorem count_classes (d : JString) :
    (classes.map fun info => info.ref.originalClassDescriptor).count d ≤ 100000 := by
  have hle : (classes.map fun info => info.ref.originalClassDescriptor).count d ≤ _ :=
    List.count_le_length
  have hlen : (classes.map fun info => info.ref.originalClassDescriptor).length = 2 := rfl
  omega

/-- The page with the first of two lone surrogates comes again and again. -/
theorem lost : ¬Walks Platform.zeros (ofClasses classes someUuid 0 0) oneByOne
    ((matching (ofClasses classes someUuid 0 0) oneByOne).map CatalogEntry.info) := by
  intro hw
  have hs := sound_ofClasses 0 0 isUuid_someUuid count_classes
  have hcuts := (walks_length hs hw (starts_first rfl)).2 (by rw [List.length_map, Nat.sub_zero])
  have hperm := catalogEntries_perm classes
  have hall : matching (ofClasses classes someUuid 0 0) oneByOne =
      (ofClasses classes someUuid 0 0).entries := by
    unfold matching
    rw [List.filter_eq_self]
    intro e _
    rfl
  have hlen : (matching (ofClasses classes someUuid 0 0) oneByOne).length = 2 := by
    rw [hall]
    exact hperm.length_eq
  obtain ⟨e, he⟩ : ∃ e, (matching (ofClasses classes someUuid 0 0) oneByOne)[0]? = some e :=
    ⟨_, List.getElem?_eq_getElem (by omega)⟩
  have hone : oneByOne.pageSize = 1 := rfl
  have hcarried := hcuts 0 (by rw [hlen, hone]; decide) e (by rw [hone]; exact he)
  have hin : e ∈ (ofClasses classes someUuid 0 0).entries := hall ▸ List.mem_of_getElem? he
  have hmem := hperm.mem_iff.1 hin
  have hlost : ∀ x ∈ (numbered [] classes).map (marked (numbered [] classes)),
      Paired x.descriptor = false := by
    decide +kernel
  have hpaired := hcarried.1
  rw [hlost e hmem] at hpaired
  exact absurd hpaired (by simp)

end LoneSurrogate

/-- The walk over two classes whose names are lone surrogates does not end. -/
theorem walk_not_complete :
    ¬∀ (platform : Platform) (classes : List ClassInfo) (sessionId : JString)
    (revision epoch : Int64)
    (query : ClassQuery), isUuid sessionId →
    (∀ d, (classes.map fun info => info.ref.originalClassDescriptor).count d ≤ 100000) →
    query.cursor = none →
    Walks platform (ofClasses classes sessionId revision epoch) query
      ((matching (ofClasses classes sessionId revision epoch) query).map CatalogEntry.info) :=
  fun h =>
  LoneSurrogate.lost (h _ _ _ 0 0 LoneSurrogate.oneByOne isUuid_someUuid LoneSurrogate.count_classes rfl)

/-- The two classes. -/
theorem walk_complete_two :
    ((ofClasses LoneSurrogate.classes someUuid 0 0).entries.Pairwise Before ∧
      (ofClasses LoneSurrogate.classes someUuid 0 0).entries.Perm
        ((numbered [] LoneSurrogate.classes).map (marked (numbered [] LoneSurrogate.classes)))) ∧
    (Walks Platform.zeros (ofClasses LoneSurrogate.classes someUuid 0 0) LoneSurrogate.oneByOne
        ((matching (ofClasses LoneSurrogate.classes someUuid 0 0) LoneSurrogate.oneByOne).map
          CatalogEntry.info) ↔
      Cuts (ofClasses LoneSurrogate.classes someUuid 0 0) LoneSurrogate.oneByOne 0) :=
  walk_complete_iff Platform.zeros LoneSurrogate.classes someUuid 0 0 LoneSurrogate.oneByOne
    isUuid_someUuid LoneSurrogate.count_classes rfl

end SymbolCatalog

end Libjadx
