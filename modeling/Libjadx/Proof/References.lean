import Libjadx.Proof.Bound
import Libjadx.Spec.References

/-!
# Reference snapshots are canonical

* `orderingKey_injective`: the key of an edge says all of it.
* `sorted_eq`: the edges in order do not depend on how they were observed.
* `hash_injective`, `make_ok`: where SHA-256 tells the hashed texts apart, the snapshot is made.
* `walks_iff`: the pages of a walk are the edges in order; `serve_same`: no other snapshot takes its
  cursors.
-/

namespace Libjadx

namespace ReferenceSnapshot

/-! ## Keys -/

section Keys

/-- A number has no colon. -/
theorem colon_notMem_decimal (n : ℤ) : chr ':' ∉ decimal n := by
  intro h
  rcases mem_decimal h with h | h
  · exact absurd h (by decide)
  · exact absurd h (by decide)

/-- A packed field can be taken off. -/
theorem packed_append {a b : Option JString} {s t : JString} (h : packed a ++ s = packed b ++ t) :
    a = b ∧ s = t := by
  have hcut : ∀ {m n : ℤ} {u v : JString}, decimal m ++ chr ':' :: u = decimal n ++ chr ':' :: v →
      m = n ∧ u = v := by
    intro m n u v heq
    obtain ⟨hnumber, hrest⟩ := cut_unique (colon_notMem_decimal m) (colon_notMem_decimal n) heq
    exact ⟨decimal_injective hnumber, hrest⟩
  rcases a with - | a <;> rcases b with - | b <;>
    simp only [packed, List.append_assoc, List.cons_append, List.nil_append] at h
  · exact ⟨rfl, (hcut h).2⟩
  · have hlen := (hcut h).1
    omega
  · have hlen := (hcut h).1
    omega
  · obtain ⟨hlen, hrest⟩ := hcut h
    obtain ⟨rfl, htail⟩ := List.append_inj hrest (by omega)
    exact ⟨rfl, htail⟩

/-- **Packed fields can be told apart.** -/
theorem pack_injective {a b : List (Option JString)} (h : pack a = pack b) : a = b := by
  have hne : ∀ (x : Option JString) (l : List (Option JString)), pack (x :: l) ≠ [] := by
    intro x l hnil
    unfold pack at hnil
    rw [List.flatMap_cons, List.append_eq_nil_iff] at hnil
    rcases x with - | x <;> simp [packed] at hnil
  induction a generalizing b with
  | nil =>
    cases b with
    | nil => rfl
    | cons y b => exact absurd h.symm (hne y b)
  | cons x a ih =>
    cases b with
    | nil => exact absurd h (hne x a)
    | cons y b =>
      obtain ⟨rfl, hrest⟩ := packed_append h
      rw [ih hrest]

theorem kindName_injective {a b : SymbolKind} (h : a.name = b.name) : a = b := by
  revert h
  cases a <;> cases b <;> decide

theorem relationName_injective {a b : Relation} (h : a.name = b.name) : a = b := by
  revert h
  cases a <;> cases b <;> decide

theorem resolutionName_injective {a b : Resolution} (h : a.name = b.name) : a = b := by
  revert h
  cases a <;> cases b <;> decide

theorem evidenceName_injective {a b : Evidence} (h : a.name = b.name) : a = b := by
  revert h
  cases a <;> cases b <;> decide

/-- So can the keys of symbols, -/
theorem refKey_injective {a b : SymbolRef} (h : refKey a = refKey b) : a = b := by
  have hfields := pack_injective h
  simp only [List.cons.injEq, Option.some.injEq, and_true] at hfields
  obtain ⟨hkind, hclass, hinput, hname, hdescriptor⟩ := hfields
  exact SymbolRef.ext (kindName_injective hkind) hclass hinput hname hdescriptor

/-- of sites, -/
theorem siteKey_injective {a b : ReferenceSite} (h : siteKey a = siteKey b) : a = b := by
  have hfields := pack_injective h
  simp only [List.cons.injEq, Option.some.injEq, and_true] at hfields
  obtain ⟨howner, hsnapshot, hoffset, hline, hcolumn, hprecision⟩ := hfields
  obtain ⟨o, s, ⟨f, l, c⟩, p⟩ := a
  obtain ⟨o', s', ⟨f', l', c'⟩, p'⟩ := b
  dsimp only at howner hsnapshot hoffset hline hcolumn hprecision
  rw [refKey_injective howner, hsnapshot, decimal_injective hoffset, decimal_injective hline,
    decimal_injective hcolumn,
    hprecision]

/-- and of instructions. -/
theorem instructionKey_injective {a b : Instruction} (h : instructionKey a = instructionKey b) :
    a = b := by
  have hfields := pack_injective h
  simp only [List.cons.injEq, Option.some.injEq, and_true] at hfields
  obtain ⟨hoffset, hunit, hbase, hprecision, hopcode⟩ := hfields
  obtain ⟨o, u, b', p, c⟩ := a
  obtain ⟨o', u', b'', p', c'⟩ := b
  dsimp only at hoffset hunit hbase hprecision hopcode
  rw [decimal_injective hoffset, hunit, hbase, hprecision, hopcode]

/-- A site has one field more than an instruction. -/
theorem siteKey_ne_instructionKey (site : ReferenceSite) (insn : Instruction) :
    siteKey site ≠ instructionKey insn := by
  intro h
  have hlen := congrArg List.length (pack_injective h)
  simp at hlen

/-- Keys of one kind, and one of another kind at the end or none. -/
theorem keys_injective {α β γ : Type} {f : α → γ} {g : β → γ} (hf : Function.Injective f)
    (hg : Function.Injective g)
    (hfg : ∀ a b, f a ≠ g b) {l m : List α} {x y : Option β}
    (h : l.map f ++ (x.map g).toList = m.map f ++ (y.map g).toList) : l = m ∧ x = y := by
  induction l generalizing m with
  | nil =>
    cases m with
    | nil =>
      rcases x with - | x <;> rcases y with - | y <;> simp at h
      · exact ⟨rfl, rfl⟩
      · exact ⟨rfl, congrArg some (hg h)⟩
    | cons b m =>
      rcases x with - | x <;> simp at h
      exact absurd h.1.symm (hfg _ _)
  | cons a l ih =>
    cases m with
    | nil =>
      rcases y with - | y <;> simp at h
      exact absurd h.1 (hfg _ _)
    | cons b m =>
      simp only [List.map_cons, List.cons_append, List.cons.injEq] at h
      obtain ⟨rfl, rfl⟩ := ih h.2
      exact ⟨by rw [hf h.1], rfl⟩

/-- **The key of an edge says all of it**, but for the original offset. -/
theorem orderingKey_injective {a b : ReferenceEdge} (h : orderingKey a = orderingKey b)
    (hoffset : a.originalOffset = b.originalOffset) : a = b := by
  have hfields := pack_injective h
  simp only [List.cons_append, List.nil_append, List.cons.injEq, Option.some.injEq] at hfields
  obtain ⟨hrelation, hsource, htarget, hresolution, hevidence, hcoverage, hkeys⟩ := hfields
  have hsome : ∀ {δ : Type} {k : δ → JString}, (∀ {x y}, k x = k y → x = y) →
      Function.Injective fun x => some (k x) :=
    fun hk _ _ hxy => hk (Option.some.inj hxy)
  obtain ⟨hsites, hinsn⟩ := keys_injective (hsome siteKey_injective)
    (hsome instructionKey_injective)
    (fun x y hxy => siteKey_ne_instructionKey x y (Option.some.inj hxy)) hkeys
  obtain ⟨s, t, r, n, v, l, c, o, i⟩ := a
  obtain ⟨s', t', r', n', v', l', c', o', i'⟩ := b
  dsimp only at hrelation hsource htarget hresolution hevidence hcoverage hsites hinsn hoffset
  rw [refKey_injective hsource, refKey_injective htarget, relationName_injective hrelation,
    resolutionName_injective hresolution, evidenceName_injective hevidence, hcoverage, hsites,
      hinsn, hoffset]

end Keys

/-! ## Order -/

section Order

variable {view : ReferenceView} {l m : List ReferenceEdge}

/-- A comparator of a part. -/
theorem transCmp_on {α β : Type} {cmp : β → β → Ordering} [Std.TransCmp cmp] (f : α → β) :
    Std.TransCmp fun a b => cmp (f a) (f b) where
  eq_swap {a b} := (Std.OrientedCmp.eq_swap : cmp (f a) (f b) = (cmp (f b) (f a)).swap)
  isLE_trans {a _ c} hab hbc := (Std.TransCmp.isLE_trans hab hbc : (cmp (f a) (f c)).isLE)

instance : Std.TransCmp REF_ORDER := by
  unfold REF_ORDER
  infer_instance

instance : Std.TransCmp pairOrder := by
  have hsource : Std.TransCmp fun a b : ReferenceEdge => REF_ORDER a.sourceRef b.sourceRef :=
    transCmp_on _
  have htarget : Std.TransCmp fun a b : ReferenceEdge => REF_ORDER a.targetRef b.targetRef :=
    transCmp_on _
  unfold pairOrder
  infer_instance

instance (view : ReferenceView) : Std.TransCmp (order view) := by
  cases view
  · exact inferInstanceAs (Std.TransCmp pairOrder)
  · unfold order
    infer_instance

/-- **Edges in the same place have the same key.** -/
theorem orderingKey_of_order {a b : ReferenceEdge} (h : order view a b = .eq) :
    orderingKey a = orderingKey b := by
  have hpair : pairOrder a b = .eq := by
    cases view with
    | PAIRS => exact h
    | INSTRUCTIONS => exact (compareLex_eq_eq.1 h).2
  have hkey := (compareLex_eq_eq.1
    (compareLex_eq_eq.1 (compareLex_eq_eq.1 (compareLex_eq_eq.1 hpair).2).2).2).2
  exact Std.LawfulEqOrd.eq_of_compare hkey

/-- Without repetitions; the first of equal edges stays. -/
theorem nodup_eraseDups {α : Type} [DecidableEq α] (n : ℕ) :
    ∀ l : List α, l.length ≤ n → l.eraseDups.Nodup := by
  induction n with
  | zero =>
    intro l hl
    rw [List.length_eq_zero_iff.1 (Nat.le_zero.1 hl)]
    exact List.nodup_nil
  | succ n ih =>
    intro l hl
    cases l with
    | nil => exact List.nodup_nil
    | cons a l =>
      rw [List.eraseDups_cons, List.nodup_cons]
      refine ⟨fun hin => ?_, ih _ ?_⟩
      · have hkept := (List.mem_filter.1 (List.mem_eraseDups.1 hin)).2
        simp at hkept
      · have hle := List.length_filter_le (fun b => !b == a) l
        rw [List.length_cons] at hl
        omega

/-- The sorted edges are the edges, -/
theorem mem_sorted {e : ReferenceEdge} : e ∈ sorted view l ↔ e ∈ l := by
  unfold sorted
  rw [List.mem_mergeSort, List.mem_eraseDups]

/-- each once, -/
theorem nodup_sorted : (sorted view l).Nodup :=
  (List.mergeSort_perm _ _).nodup_iff.2 (nodup_eraseDups _ l le_rfl)

/-- in order. -/
theorem pairwise_sorted : (sorted view l).Pairwise fun a b => (order view a b).isLE := by
  have htrans : ∀ a b c, (order view a b).isLE → (order view b c).isLE → (order view a c).isLE :=
    fun a b c hab hbc => Std.TransCmp.isLE_trans hab hbc
  have htotal : ∀ a b, ((order view a b).isLE || (order view b a).isLE) = true := by
    intro a b
    have hswap : order view b a = (order view a b).swap := Std.OrientedCmp.eq_swap
    rw [hswap]
    cases order view a b <;> rfl
  exact List.pairwise_mergeSort htrans htotal _

/-- **The edges in order do not depend on how they were observed.** -/
theorem sorted_eq (h : ∀ e, e ∈ l ↔ e ∈ m) (hoffset : ∀ e ∈ l, e.originalOffset = none) :
    sorted view l = sorted view m := by
  have hperm : (sorted view l).Perm (sorted view m) := by
    rw [List.perm_ext_iff_of_nodup nodup_sorted nodup_sorted]
    intro e
    rw [mem_sorted, mem_sorted, h]
  refine List.Perm.eq_of_pairwise (fun a b ha hb hab hba => ?_) pairwise_sorted pairwise_sorted hperm
  have heq : order view a b = .eq := Std.OrientedCmp.isLE_antisymm hab hba
  refine orderingKey_injective (orderingKey_of_order heq) ?_
  rw [hoffset a (mem_sorted.1 ha), hoffset b ((h b).2 (mem_sorted.1 hb))]

end Order

/-! ## Hashes and cursors -/

section Hashes

variable {platform : Platform} {cursor : Cursor} {token : JString}

/-- **A field is read back.** -/
theorem readField_append {field : JString} (h : field.length < 2 ^ 31) (rest : List UInt8) :
    readField (DataStream.writeInt (Int32.ofNat field.length) ++ DataStream.writeChars field ++
      rest) = some (field, rest) := by
  have hlen : (Int32.ofNat field.length).toInt = field.length := Int32.toInt_ofNat_of_lt h
  have hchars := DataStream.length_writeChars field
  unfold readField
  rw [List.append_assoc, DataStream.readInt_writeInt, Option.bind_eq_bind, Option.bind_some]
  dsimp only
  rw [hlen, if_neg, Int.toNat_natCast, DataStream.readChars_writeChars]
  rw [List.length_append, hchars]
  omega

/-- The bytes of a token go field by field. -/
theorem bytes_cons (field : JString) (fields : List JString) : bytes (field :: fields) =
    DataStream.writeInt (Int32.ofNat field.length) ++ DataStream.writeChars field ++ bytes fields :=
  rfl

/-- **The fields can be told from their bytes.** -/
theorem bytes_injective {a b : List JString} (ha : ∀ s ∈ a, s.length < 2 ^ 31)
    (hb : ∀ s ∈ b, s.length < 2 ^ 31)
    (h : bytes a = bytes b) : a = b := by
  have hne : ∀ (x : JString) (l : List JString), bytes (x :: l) ≠ [] := by
    intro x l hnil
    have hlen := congrArg List.length hnil
    rw [bytes_cons, List.length_append, List.length_append, DataStream.writeInt, DataStream.length_bytes,
      List.length_nil] at hlen
    omega
  induction a generalizing b with
  | nil =>
    cases b with
    | nil => rfl
    | cons y b => exact absurd h.symm (hne y b)
  | cons x a ih =>
    cases b with
    | nil => exact absurd h (hne x a)
    | cons y b =>
      have hread := readField_append (ha x List.mem_cons_self) (bytes a)
      rw [← bytes_cons, h, bytes_cons, readField_append (hb y List.mem_cons_self)] at hread
      obtain ⟨rfl, hrest⟩ := Prod.mk.inj (Option.some.inj hread)
      rw [ih (fun s hs => ha s (List.mem_cons_of_mem _ hs)) (fun s hs =>
        hb s (List.mem_cons_of_mem _ hs)) hrest.symm]

/-- Two digits that look alike are the same. -/
theorem hexDigit_injective {m n : ℕ} (hm : m < 16) (hn : n < 16) (h : hexDigit m = hexDigit n) :
    m = n := by
  interval_cases m <;> interval_cases n <;> first | rfl | exact absurd h (by decide)

/-- A byte has two digits. -/
theorem length_formatHex (raw : List UInt8) : (formatHex raw).length = 2 * raw.length := by
  unfold formatHex
  induction raw with
  | nil => rfl
  | cons b raw ih =>
    rw [List.flatMap_cons, List.length_append, ih, List.length_cons, List.length_cons, List.length_cons]
    simp
    omega

/-- **Bytes that look alike are the same.** -/
theorem formatHex_injective {a b : List UInt8} (h : formatHex a = formatHex b) : a = b := by
  induction a generalizing b with
  | nil =>
    cases b with
    | nil => rfl
    | cons y b => cases h
  | cons x a ih =>
    cases b with
    | nil => cases h
    | cons y b =>
      have hx := x.toNat_lt
      have hy := y.toNat_lt
      obtain ⟨hhigh, htail⟩ := List.cons.inj h
      obtain ⟨hlow, hrest⟩ := List.cons.inj htail
      have hdiv := hexDigit_injective (by omega) (by omega) hhigh
      have hmod := hexDigit_injective (by omega) (by omega) hlow
      have hxy : x = y := UInt8.toNat_inj.1 (by omega)
      rw [hxy, ih hrest]

/-- SHA-256 tells texts apart that are Java strings. -/
structure Apart (platform : Platform) (texts : List (List JString)) : Prop where
  sha256 : ∀ a ∈ texts, ∀ b ∈ texts, platform.sha256 (bytes a) = platform.sha256 (bytes b) →
    bytes a = bytes b
  length : ∀ a ∈ texts, ∀ s ∈ a, s.length < 2 ^ 31

/-- **Texts of the same hash are the same, where the digest tells the texts apart.** -/
theorem hash_injective {texts a b} (h : Apart platform texts) (ha : a ∈ texts) (hb : b ∈ texts)
    (heq : hash platform a = hash platform b) : a = b := by
  have hraw := formatHex_injective (List.append_cancel_left heq)
  exact bytes_injective (h.length a ha) (h.length b hb) (h.sha256 a ha b hb hraw)

/-- A hash has 71 letters. -/
theorem length_hash (fields : List JString) : (hash platform fields).length = 71 := by
  unfold hash
  rw [List.length_append, length_formatHex, platform.sha256_length]
  decide

theorem length_domain : DOMAIN.length = 21 := by decide

theorem length_bytes_five (a b c d e : JString) :
    (bytes [a, b, c, d, e]).length = 20 + 2 * (a.length + b.length + c.length + d.length +
      e.length) := by
  have hone : ∀ (x : JString) (l : List JString), (bytes (x :: l)).length = 4 + 2 * x.length +
      (bytes l).length := by
    intro x l
    rw [bytes_cons, List.length_append, List.length_append, DataStream.writeInt, DataStream.length_bytes,
      DataStream.length_writeChars]
  have hnil : (bytes []).length = 0 := rfl
  rw [hone, hone, hone, hone, hone, hnil]
  omega

/-- **A cursor is read back from its bytes.** -/
theorem readCursor_bytes (h : ∀ s ∈ [cursor.state, cursor.queryHash, cursor.snapshot, cursor.last],
    s.length < 2 ^ 31) :
    readCursor (bytes [DOMAIN, cursor.state, cursor.queryHash, cursor.snapshot, cursor.last]) =
      some cursor := by
  have hdomain : DOMAIN.length < 2 ^ 31 := by
    rw [length_domain]
    omega
  simp only [List.forall_mem_cons, List.not_mem_nil, false_implies, implies_true, and_true] at h
  obtain ⟨hstate, hquery, hsnapshot, hlast⟩ := h
  unfold readCursor
  rw [bytes_cons, readField_append hdomain, Option.bind_eq_bind, Option.bind_some]
  dsimp only
  rw [if_neg (by simp)]
  simp only [Option.bind_eq_bind, Option.pure_def]
  rw [bytes_cons, readField_append hstate, Option.bind_some]
  dsimp only
  rw [bytes_cons, readField_append hquery, Option.bind_some]
  dsimp only
  rw [bytes_cons, readField_append hsnapshot, Option.bind_some]
  dsimp only
  rw [bytes_cons, readField_append hlast, Option.bind_some]
  rfl

/-- **A cursor comes back.** -/
theorem authenticate_encode (h : encode platform cursor = .ok token) :
    authenticate platform token = .ok cursor := by
  unfold encode at h
  dsimp only at h
  split at h
  · cases h
  rename_i hlen
  obtain rfl := Except.ok.inj h
  -- a token that fits holds no field that is longer than its length can say
  have hshort : ∀ s ∈ [cursor.state, cursor.queryHash, cursor.snapshot, cursor.last], s.length <
      2 ^ 31 := by
    rw [length_sign (platform.mac_length _), length_bytes_five] at hlen
    simp only [List.forall_mem_cons, List.not_mem_nil, false_implies, implies_true, and_true]
    omega
  unfold authenticate
  rw [if_neg hlen, verify_sign (platform.mac_length _), Option.bind_some, readCursor_bytes hshort]

variable (platform) in
/-- **A cursor of hashes has a token, and the token is valid.** -/
theorem encode_ok (h : ∀ s ∈ [cursor.state, cursor.queryHash, cursor.snapshot, cursor.last],
    s.length = 71) :
    ∃ token, encode platform cursor = .ok token ∧ ReferenceQuery.validCursor token = true := by
  simp only [List.forall_mem_cons, List.not_mem_nil, false_implies, implies_true, and_true] at h
  obtain ⟨hstate, hquery, hsnapshot, hlast⟩ := h
  have hlen : (sign platform.mac (bytes [DOMAIN, cursor.state, cursor.queryHash, cursor.snapshot,
      cursor.last])).length = 884 := by
    rw [length_sign (platform.mac_length _), length_bytes_five, length_domain, hstate, hquery,
      hsnapshot, hlast]
  refine ⟨sign platform.mac (bytes [DOMAIN, cursor.state, cursor.queryHash, cursor.snapshot,
    cursor.last]), ?_, ?_⟩
  · exact if_neg (by rw [hlen]; omega)
  · have hne : (sign platform.mac
      (bytes [DOMAIN, cursor.state, cursor.queryHash, cursor.snapshot, cursor.last])).isEmpty =
        false := by
      rw [List.isEmpty_eq_false_iff, ← List.length_pos_iff, hlen]
      omega
    unfold ReferenceQuery.validCursor
    rw [hne, hlen]
    decide

end Hashes

/-! ## Snapshots -/

section Snapshots

variable {platform : Platform} {o o' : Observation} {s : ReferenceSnapshot}

/-- The texts that a snapshot hashes. -/
def hashed (platform : Platform) (o : Observation) : List (List JString) :=
  [stateFields o, queryFields o.query, contentFields platform o (sorted o.query.view o.observed)] ++
    o.observed.map fun e => edgeFields (orderingKey e)

/-- Edges as the readers of the program make them. -/
structure Observed (o : Observation) : Prop where
  originalOffset : ∀ e ∈ o.observed, e.originalOffset = none
  instruction : o.query.view = .INSTRUCTIONS → ∀ e ∈ o.observed, e.instruction.isSome

/-- The same edges, whatever their order is and how often each was observed. -/
def SameEdges (o o' : Observation) : Prop := ∀ e, e ∈ o.observed ↔ e ∈ o'.observed

/-- No observed edge compares a null. -/
theorem comparesNull_false (h : Observed o) : comparesNull o.query.view o.observed = false := by
  unfold comparesNull
  cases hview : o.query.view with
  | PAIRS => rfl
  | INSTRUCTIONS =>
    have hall : (o.observed.any fun e => e.instruction.isNone) = false := by
      rw [List.any_eq_false]
      intro e he
      rw [← Option.not_isSome, h.instruction hview e he]
      decide
    rw [hall, Bool.and_false]

/-- **Edges of the same fields are the same.** -/
theorem edgeFields_injective {a b : JString} (h : edgeFields a = edgeFields b) : a = b := by
  unfold edgeFields at h
  simpa using h

/-- The digests of the edges can be told apart. -/
theorem digest_injective (h : Observed o) (hapart : Apart platform (hashed platform o))
    {a b : ReferenceEdge}
    (ha : a ∈ o.observed) (hb : b ∈ o.observed)
    (heq : edgeDigest platform (orderingKey a) = edgeDigest platform (orderingKey b)) : a = b := by
  have hin : ∀ e ∈ o.observed, edgeFields (orderingKey e) ∈ hashed platform o := fun e he =>
    List.mem_append_right _ (List.mem_map.2 ⟨e, he, rfl⟩)
  have hfields := hash_injective hapart (hin a ha) (hin b hb) heq
  refine orderingKey_injective (edgeFields_injective hfields) ?_
  rw [h.originalOffset a ha, h.originalOffset b hb]

/-- **The snapshot is made.** -/
theorem make_ok (h : Observed o) (hapart : Apart platform (hashed platform o)) :
    ∃ s, make platform o = .ok s ∧
    s.edges = sorted o.query.view o.observed ∧ s.state = hash platform (stateFields o) ∧
      s.queryHash = queryHashOf platform o.query ∧
      s.id = hash platform (contentFields platform o (sorted o.query.view o.observed)) ∧
      s.edgeDigests = s.edges.map (fun e => edgeDigest platform (orderingKey e)) ∧
        s.edgeDigests.Nodup := by
  have hnodup : ((sorted o.query.view o.observed).map fun e =>
      edgeDigest platform (orderingKey e)).Nodup := by
    refine nodup_sorted.map_on fun a ha b hb heq => ?_
    exact digest_injective h hapart (mem_sorted.1 ha) (mem_sorted.1 hb) heq
  unfold make
  rw [comparesNull_false h, if_neg (by decide)]
  dsimp only
  rw [if_pos hnodup]
  exact ⟨_, rfl, rfl, rfl, rfl, rfl, rfl, hnodup⟩

theorem viewName_injective {a b : ReferenceView} (h : a.name = b.name) : a = b := by
  revert h
  cases a <;> cases b <;> decide

/-- The fields of a query hold its view and its page size. -/
theorem view_of_fields {q q' : ReferenceQuery} (h : queryFields q = queryFields q') :
    q.view = q'.view ∧ q.pageSize = q'.pageSize := by
  unfold queryFields at h
  simp only [List.cons.injEq, and_true] at h
  obtain ⟨-, -, -, hsize, -, -, hview⟩ := h
  exact ⟨viewName_injective hview, Int.ofNat.inj (decimal_injective hsize)⟩

/-- **The snapshot depends on the set of edges alone.** -/
theorem make_eq (h : Observed o) (hsame : SameEdges o o') (hstate : stateFields o = stateFields o')
    (hobservation : o.observation = o'.observation)
    (hfields : queryFields o.query = queryFields o'.query) :
    make platform o = make platform o' := by
  have hview := (view_of_fields hfields).1
  have hobserved : Observed o' := by
    refine ⟨fun e he => h.originalOffset e ((hsame e).2 he), fun hinstructions e he => ?_⟩
    exact h.instruction (hview.trans hinstructions) e ((hsame e).2 he)
  have hsorted : sorted o.query.view o.observed = sorted o'.query.view o'.observed := by
    rw [← hview]
    exact sorted_eq hsame h.originalOffset
  have hquery : queryHashOf platform o.query = queryHashOf platform o'.query :=
    congrArg (hash platform) hfields
  have hcontent : ∀ l, contentFields platform o l = contentFields platform o' l := by
    intro l
    unfold contentFields
    rw [hstate, hquery, hobservation]
  unfold make
  rw [comparesNull_false h, comparesNull_false hobserved, hsorted, hstate, hquery]
  simp only [hcontent]

end Snapshots

/-! ## Walks -/

section Walks

variable {platform : Platform} {o : Observation} {s : ReferenceSnapshot}
    {query : ReferenceQuery} {n : ℕ}

/-- The cursor that leads behind so many edges. -/
def cursorAt (s : ReferenceSnapshot) (n : ℕ) : Cursor :=
  ⟨s.state, s.queryHash, s.id, s.edgeDigests.getD (n - 1) []⟩

/-- What a snapshot is, whatever it was made of. -/
structure Made (platform : Platform) (o : Observation) (s : ReferenceSnapshot) : Prop where
  observed : Observed o
  made : make platform o = .ok s
  digests : s.edgeDigests = s.edges.map fun e => edgeDigest platform (orderingKey e)
  nodup : s.edgeDigests.Nodup
  length : s.state.length = 71 ∧ s.queryHash.length = 71 ∧ s.id.length = 71

/-- A snapshot that is made holds the sorted edges. -/
theorem made_of (h : Observed o) (hapart : Apart platform (hashed platform o)) :
    ∃ s, Made platform o s ∧
    s.edges = sorted o.query.view o.observed := by
  obtain ⟨s, hmade, hedges, hstate, hquery, hid, hdigests, hnodup⟩ := make_ok h hapart
  refine ⟨s, ⟨h, hmade, hdigests, hnodup, ?_, ?_, ?_⟩, hedges⟩
  · rw [hstate, length_hash]
  · rw [hquery, queryHashOf, length_hash]
  · rw [hid, length_hash]

/-- A query that is answered from the edge `n` on. -/
structure At (platform : Platform) (o : Observation) (s : ReferenceSnapshot)
    (query : ReferenceQuery) (n : ℕ) : Prop where
  fields : queryFields o.query = queryFields query
  le : n ≤ s.edges.length
  cursor : query.cursor = none ∧ n = 0 ∨
    ∃ token, query.cursor = some token ∧ authenticate platform token = .ok (cursorAt s n) ∧ 0 < n

/-- **The cursor behind a page leads to the next one.** -/
theorem start_cursorAt (h : Made platform o s) (hpos : 0 < n) (hle : n ≤ s.edges.length) :
    start s (some (cursorAt s n)) = .ok n := by
  have hlen : s.edgeDigests.length = s.edges.length := by rw [h.digests, List.length_map]
  have hlt : n - 1 < s.edgeDigests.length := by omega
  have hlast : s.edgeDigests.getD (n - 1) [] = s.edgeDigests[n - 1] := by
    rw [List.getD_eq_getElem?_getD, List.getElem?_eq_getElem hlt, Option.getD_some]
  have hposition : s.edgeDigests.idxOf? (cursorAt s n).last = some (n - 1) := by
    rw [List.idxOf?_eq_some_iff]
    refine ⟨hlt, hlast.symm, fun j hj heq => ?_⟩
    have hindex := (List.Nodup.getElem_inj_iff h.nodup).1 (heq.trans hlast)
    omega
  have hback : n - 1 + 1 = n := by omega
  unfold start
  dsimp only
  rw [if_neg (fun hne => hne rfl), if_neg (fun hne => hne rfl), if_neg (fun hne => hne rfl), hposition]
  dsimp only
  rw [hback]

/-- **What a request is answered with.** -/
theorem serve_at (h : Made platform o s) (hat : At platform o s query n)
    {observed : List ReferenceEdge}
    (hsame : ∀ e, e ∈ observed ↔ e ∈ o.observed) : ∃ slice,
      serve platform { o with observed := observed, query := query } = .ok slice ∧
      slice.edges = (s.edges.drop n).take query.pageSize ∧
      (s.edges.length ≤ n + query.pageSize ∧ slice.nextCursor = none ∨
        n + query.pageSize < s.edges.length ∧ ∃ token, slice.nextCursor = some token ∧
          authenticate platform token = .ok (cursorAt s (n + query.pageSize)) ∧
            ReferenceQuery.validCursor token = true) := by
  have hmake : make platform { o with observed := observed, query := query } = .ok s := by
    have hedges : SameEdges o { o with observed := observed, query := query } := fun e =>
      (hsame e).symm
    rw [← h.made]
    exact (make_eq h.observed hedges rfl rfl hat.fields).symm
  obtain ⟨cursor, hcursor, hstart⟩ : ∃ cursor, presented platform query = .ok cursor ∧
      start s cursor = .ok n := by
    unfold presented
    rcases hat.cursor with ⟨hnone, rfl⟩ | ⟨token, htoken, hauth, hpos⟩
    · exact ⟨none, by rw [hnone], rfl⟩
    · refine ⟨some (cursorAt s n), ?_, start_cursorAt h hpos hat.le⟩
      rw [htoken]
      dsimp only
      rw [hauth]
      rfl
  have hserve : serve platform { o with observed := observed, query := query } = page platform s
      query cursor := by
    unfold serve
    rw [hcursor, hmake]
    rfl
  have hslice : ∀ stop, stop = min s.edges.length (n + query.pageSize) →
      (s.edges.take stop).drop n = (s.edges.drop n).take query.pageSize := by
    rintro stop rfl
    have hlen : (s.edges.drop n).length = s.edges.length - n := List.length_drop
    rw [List.drop_take]
    rcases Nat.le_total (n + query.pageSize) s.edges.length with hle | hle
    · rw [Nat.min_eq_right hle, Nat.add_sub_cancel_left]
    · rw [Nat.min_eq_left hle, List.take_of_length_le (by omega), List.take_of_length_le (by omega)]
  rw [hserve]
  unfold page
  rw [hstart]
  simp only [bind, Except.bind]
  by_cases hmore : min s.edges.length (n + query.pageSize) < s.edges.length
  · have hstop : min s.edges.length (n + query.pageSize) = n + query.pageSize := by omega
    have hlast : (s.edgeDigests.getD (n + query.pageSize - 1) []).length = 71 := by
      have hlt : n + query.pageSize - 1 < s.edgeDigests.length := by
        rw [h.digests, List.length_map]
        omega
      rw [List.getD_eq_getElem?_getD, List.getElem?_eq_getElem hlt, Option.getD_some]
      have hall : ∀ d ∈ s.edgeDigests, d.length = 71 := by
        rw [h.digests]
        intro d hd
        obtain ⟨e, -, rfl⟩ := List.mem_map.1 hd
        exact length_hash _
      exact hall _ (List.getElem_mem hlt)
    obtain ⟨token, htoken, hvalid⟩ := @encode_ok platform (cursorAt s (n + query.pageSize)) (by
      simp only [List.forall_mem_cons, List.not_mem_nil, false_implies, implies_true, and_true]
      exact ⟨h.length.1, h.length.2.1, h.length.2.2, hlast⟩)
    rw [if_pos hmore, hstop]
    have hencode : encode platform
        ⟨s.state, s.queryHash, s.id, s.edgeDigests.getD (n + query.pageSize - 1) []⟩ = .ok token :=
      htoken
    rw [hencode]
    refine ⟨_, rfl, hslice _ hstop.symm, .inr ⟨by omega, token, rfl, authenticate_encode htoken, hvalid⟩⟩
  · rw [if_neg hmore]
    exact ⟨_, rfl, hslice _ rfl, .inl ⟨by omega, rfl⟩⟩

/-- A cursor that is followed leads behind the page. -/
theorem at_follow {query' : ReferenceQuery} {token : JString} (hat : At platform o s query n)
    (hlt : n + query.pageSize < s.edges.length)
    (hauth : authenticate platform token = .ok (cursorAt s (n + query.pageSize)))
    (hf : query.follow token = some query') : At platform o s query' (n + query.pageSize) := by
  have hpos := query.pageSize_valid.1
  unfold ReferenceQuery.follow at hf
  split at hf
  · obtain rfl := Option.some.inj hf
    exact ⟨hat.fields, hlt.le, .inr ⟨token, rfl, hauth, by omega⟩⟩
  · cases hf

/-- **The pages of a walk are the edges that are left**, in their order. -/
theorem walks_eq (h : Made platform o s) {l : List ReferenceEdge} (hw : Walks platform o query l) :
    ∀ {n}, At platform o s query n → l = s.edges.drop n := by
  induction hw with
  | @last query observed slice hsame hserve hnone =>
    intro n hat
    obtain ⟨slice', hserve', hedges, ⟨hall, -⟩ | ⟨-, token, htoken, -⟩⟩ := serve_at h hat hsame
    · obtain rfl := Except.ok.inj (hserve'.symm.trans hserve)
      rw [hedges, List.take_of_length_le]
      rw [List.length_drop]
      omega
    · obtain rfl := Except.ok.inj (hserve'.symm.trans hserve)
      rw [hnone] at htoken
      cases htoken
  | @next query query' observed slice token rest hsame hserve hnext hf _ ih =>
    intro n hat
    obtain ⟨slice', hserve', hedges, ⟨-, hnone⟩ | ⟨hlt, token', htoken, hauth, -⟩⟩ :=
      serve_at h hat hsame
    · obtain rfl := Except.ok.inj (hserve'.symm.trans hserve)
      rw [hnone] at hnext
      cases hnext
    · obtain rfl := Except.ok.inj (hserve'.symm.trans hserve)
      obtain rfl : token' = token := Option.some.inj (htoken.symm.trans hnext)
      rw [ih (at_follow hat hlt hauth hf), hedges, ← List.drop_drop, List.take_append_drop]

/-- **The walk ends.** -/
theorem walks_exists (h : Made platform o s) (k : ℕ) :
    ∀ {query : ReferenceQuery} {n : ℕ}, s.edges.length - n ≤ k →
    At platform o s query n → Walks platform o query (s.edges.drop n) := by
  induction k with
  | zero =>
    intro query n hk hat
    obtain ⟨slice, hserve, hedges, ⟨hall, hnone⟩ | ⟨hlt, -⟩⟩ := @serve_at _ _ _ _ _ h hat o.observed
      fun _ => Iff.rfl
    · have hle := hat.le
      rw [List.take_of_length_le (by rw [List.length_drop]; omega)] at hedges
      rw [← hedges]
      exact .last (fun _ => Iff.rfl) hserve hnone
    · omega
  | succ k ih =>
    intro query n hk hat
    obtain ⟨slice, hserve, hedges, ⟨hall, hnone⟩ | ⟨hlt, token, htoken, hauth, hvalid⟩⟩ :=
      @serve_at _ _ _ _ _ h hat o.observed fun _ => Iff.rfl
    · rw [List.take_of_length_le (by rw [List.length_drop]; omega)] at hedges
      rw [← hedges]
      exact .last (fun _ => Iff.rfl) hserve hnone
    · have hpos := query.pageSize_valid.1
      obtain ⟨query', hf⟩ : ∃ query', query.follow token = some query' := ⟨_, dif_pos hvalid⟩
      have hrest := ih (by omega) (at_follow hat hlt hauth hf)
      have hsplit : s.edges.drop n = slice.edges ++ s.edges.drop (n + query.pageSize) := by
        rw [hedges, ← List.drop_drop, List.take_append_drop]
      rw [hsplit]
      exact .next (fun _ => Iff.rfl) hserve htoken hf hrest

end Walks

/-! ## Other snapshots -/

section Others

variable {platform : Platform} {o o' : Observation}

/-- The same project, the same options, and the same edges. -/
structure SameContent (o o' : Observation) : Prop where
  session : o.session = o'.session
  revision : o.revision = o'.revision
  epoch : o.epoch = o'.epoch
  settings : o.settings = o'.settings
  ref : o.query.ref = o'.query.ref
  direction : o.query.direction = o'.query.direction
  relations : o.query.relations = o'.query.relations
  pageSize : o.query.pageSize = o'.query.pageSize
  includeSourceSites : o.query.includeSourceSites = o'.query.includeSourceSites
  strict : o.query.strict = o'.query.strict
  view : o.query.view = o'.query.view
  observation : o.observation = o'.observation
  edges : SameEdges o o'

/-- A relation's name is not empty, and has no comma. -/
theorem relationName_spec (r : Relation) : r.name ≠ [] ∧ chr ',' ∉ r.name := by
  cases r <;> exact ⟨by decide, by decide⟩

theorem directionName_injective {a b : Direction} (h : a.name = b.name) : a = b := by
  revert h
  cases a <;> cases b <;> decide

/-- **The hashes say all of it.** -/
theorem sameContent {s s' : ReferenceSnapshot} (h : Observed o) (h' : Observed o')
    (hapart : Apart platform (hashed platform o ++ hashed platform o'))
    (hs : make platform o = .ok s)
    (hs' : make platform o' = .ok s') (hstate : s.state = s'.state)
    (hquery : s.queryHash = s'.queryHash) (hid : s.id = s'.id) :
    SameContent o o' := by
  have hleft : Apart platform (hashed platform o) :=
    ⟨fun a ha b hb => hapart.sha256 a (List.mem_append_left _ ha) b (List.mem_append_left _ hb),
      fun a ha => hapart.length a (List.mem_append_left _ ha)⟩
  have hright : Apart platform (hashed platform o') :=
    ⟨fun a ha b hb => hapart.sha256 a (List.mem_append_right _ ha) b (List.mem_append_right _ hb),
      fun a ha => hapart.length a (List.mem_append_right _ ha)⟩
  obtain ⟨t, ht, -, htstate, htquery, htid, -⟩ := make_ok h hleft
  obtain ⟨t', ht', -, htstate', htquery', htid', -⟩ := make_ok h' hright
  obtain rfl := Except.ok.inj (ht.symm.trans hs)
  obtain rfl := Except.ok.inj (ht'.symm.trans hs')
  have hin : ∀ {x : List JString}, x ∈ [stateFields o, queryFields o.query,
      contentFields platform o (sorted o.query.view o.observed)] → x ∈ hashed platform o ++
          hashed platform o' :=
    fun hx => List.mem_append_left _ (List.mem_append_left _ hx)
  have hin' : ∀ {x : List JString}, x ∈ [stateFields o', queryFields o'.query,
      contentFields platform o' (sorted o'.query.view o'.observed)] → x ∈ hashed platform o ++
          hashed platform o' :=
    fun hx => List.mem_append_right _ (List.mem_append_left _ hx)
  have hstates : stateFields o = stateFields o' :=
    hash_injective hapart (hin (by simp)) (hin' (by simp)) (htstate.symm.trans (hstate.trans htstate'))
  have hqueries : queryFields o.query = queryFields o'.query :=
    hash_injective hapart (hin (by simp)) (hin' (by simp)) (htquery.symm.trans (hquery.trans htquery'))
  have hcontents := hash_injective hapart (hin (by simp)) (hin' (by simp))
    (htid.symm.trans (hid.trans htid'))
  unfold stateFields at hstates
  simp only [List.cons.injEq, and_true, true_and] at hstates
  obtain ⟨hsession, hrevision, hepoch, hsettings⟩ := hstates
  unfold queryFields at hqueries
  simp only [List.cons.injEq, and_true] at hqueries
  obtain ⟨href, hdirection, hrelations, hsize, hsites, hstrict, hview⟩ := hqueries
  have hnames : ∀ l : List Relation, ∀ x ∈ l.map Relation.name, x ≠ [] ∧ chr ',' ∉ x := by
    intro l x hx
    obtain ⟨r, -, rfl⟩ := List.mem_map.1 hx
    exact relationName_spec r
  have hlist := listText_injective (hnames _) (hnames _) hrelations
  unfold contentFields at hcontents
  simp only [List.cons_append, List.nil_append, List.cons.injEq, true_and] at hcontents
  obtain ⟨-, -, hobservation, hkeys⟩ := hcontents
  -- the keys are the same, and with them the edges
  have hone : ∀ {p p' : Observation}, Observed p → Observed p' →
      (sorted p.query.view p.observed).map orderingKey =
      (sorted p'.query.view p'.observed).map orderingKey → ∀ e, e ∈ p.observed →
          e ∈ p'.observed := by
    intro p p' hp hp' hmap e he
    have hkey : orderingKey e ∈ (sorted p'.query.view p'.observed).map orderingKey := by
      rw [← hmap]
      exact List.mem_map.2 ⟨e, mem_sorted.2 he, rfl⟩
    obtain ⟨e', he', heq⟩ := List.mem_map.1 hkey
    have hin := mem_sorted.1 he'
    rwa [← orderingKey_injective heq ((hp'.originalOffset e' hin).trans (hp.originalOffset e he).symm)]
  exact ⟨hsession, decimal_injective hrevision, decimal_injective hepoch, hsettings,
    refKey_injective href,
    directionName_injective hdirection, List.map_injective_iff.2 (fun _ _ =>
      relationName_injective) hlist,
    Int.ofNat.inj (decimal_injective hsize), flag_injective hsites, flag_injective hstrict,
      viewName_injective hview,
    hobservation, fun e => ⟨hone h h' hkeys e, hone h' h hkeys.symm e⟩⟩

end Others

/-- A page with a cursor has the fields of its snapshot in it. -/
theorem nextCursor_spec {platform : Platform} {s : ReferenceSnapshot} {query : ReferenceQuery}
    {cursor : Option Cursor}
    {slice : Slice} {token : JString} (h : page platform s query cursor = .ok slice)
    (htoken : slice.nextCursor = some token) :
    ∃ last, authenticate platform token = .ok ⟨s.state, s.queryHash, s.id, last⟩ := by
  unfold page at h
  obtain ⟨first, -, hpage⟩ := bind_eq_ok.1 h
  dsimp only at hpage
  split at hpage
  · obtain ⟨next, hnext, hslice⟩ := bind_eq_ok.1 hpage
    obtain rfl := Except.ok.inj hslice
    obtain rfl : next = some token := htoken
    cases hencode : encode platform ⟨s.state, s.queryHash, s.id, s.edgeDigests.getD
        (min s.edges.length (first + query.pageSize) - 1) []⟩ with
    | error e =>
      rw [hencode] at hnext
      cases hnext
    | ok token' =>
      rw [hencode] at hnext
      obtain rfl : token' = token := Option.some.inj (Except.ok.inj hnext)
      exact ⟨_, authenticate_encode hencode⟩
  · obtain rfl := Except.ok.inj hpage
    cases htoken

/-- A cursor that is taken has the fields of the snapshot. -/
theorem start_spec {s : ReferenceSnapshot} {cursor : Cursor} {n : ℕ}
    (h : start s (some cursor) = .ok n) :
    s.state = cursor.state ∧ s.queryHash = cursor.queryHash ∧ s.id = cursor.snapshot := by
  unfold start at h
  dsimp only at h
  split at h
  · cases h
  rename_i hstate
  split at h
  · cases h
  rename_i hquery
  split at h
  · cases h
  rename_i hid
  exact ⟨of_not_not hstate, of_not_not hquery, of_not_not hid⟩

/-- **No other snapshot takes a cursor**: another project state, other options or other edges refuse
it. -/
theorem serve_same {platform : Platform} {o o' : Observation} {slice slice' : Slice}
    {token : JString} (h : Observed o)
    (h' : Observed o') (hapart : Apart platform (hashed platform o ++ hashed platform o'))
    (hserve : serve platform o = .ok slice) (htoken : slice.nextCursor = some token)
    (hcursor : o'.query.cursor = some token)
    (hserve' : serve platform o' = .ok slice') : SameContent o o' := by
  obtain ⟨cursor, -, hmade⟩ := bind_eq_ok.1 hserve
  obtain ⟨s, hs, hpage⟩ := bind_eq_ok.1 hmade
  obtain ⟨cursor', hpresented, hmade'⟩ := bind_eq_ok.1 hserve'
  obtain ⟨s', hs', hpage'⟩ := bind_eq_ok.1 hmade'
  obtain ⟨last, hauth⟩ := nextCursor_spec hpage htoken
  unfold presented at hpresented
  rw [hcursor] at hpresented
  dsimp only at hpresented
  rw [hauth] at hpresented
  obtain rfl := Except.ok.inj hpresented
  obtain ⟨n, hstart, -⟩ := bind_eq_ok.1 hpage'
  obtain ⟨hstate, hquery, hid⟩ := start_spec hstart
  exact sameContent h h' hapart hs hs' hstate.symm hquery.symm hid.symm

/-- **A reference snapshot is canonical, and its pages are exact.** It is made, holds every observed
edge once and in order, and neither the keys nor the digests of its edges coincide; the walk over
its cursors gives its edges, whatever the order is in which each request observes them; order and
repetitions change nothing; a cursor comes back as it was written, and is refused where the project,
the options or the edges are others. -/
theorem snapshot_canonical (platform : Platform) :
    (∀ o : Observation, Observed o → Apart platform (hashed platform o) →
      ∃ s, make platform o = .ok s ∧
      s.edges.Nodup ∧ (∀ e, e ∈ s.edges ↔ e ∈ o.observed) ∧
      s.edges.Pairwise (fun a b => (order o.query.view a b).isLE) ∧
      (∀ a ∈ s.edges, ∀ b ∈ s.edges, a ≠ b → orderingKey a ≠ orderingKey b ∧
        edgeDigest platform (orderingKey a) ≠ edgeDigest platform (orderingKey b)) ∧
      (o.query.cursor = none → ∀ l, Walks platform o o.query l ↔ l = s.edges)) ∧
    (∀ o o' : Observation, Observed o → SameEdges o o' → { o with observed := o'.observed } = o' →
      make platform o = make platform o' ∧ serve platform o = serve platform o') ∧
    (∀ (cursor : Cursor) (token : JString), encode platform cursor = .ok token →
      authenticate platform token = .ok cursor) ∧
    ∀ (o o' : Observation) (slice slice' : Slice) (token : JString), Observed o → Observed o' →
      Apart platform (hashed platform o ++ hashed platform o') → serve platform o = .ok slice →
      slice.nextCursor = some token → o'.query.cursor = some token →
          serve platform o' = .ok slice' → SameContent o o' := by
  refine ⟨fun o h hapart => ?_, fun o o' h hsame hrest => ?_, fun cursor token =>
    authenticate_encode,
    fun o o' slice slice' token h h' hapart hserve htoken hcursor hserve' =>
      serve_same h h' hapart hserve htoken hcursor hserve'⟩
  · obtain ⟨s, hmade, hedges⟩ := made_of h hapart
    have hmem : ∀ e, e ∈ s.edges ↔ e ∈ o.observed := by
      intro e
      rw [hedges, mem_sorted]
    refine ⟨s, hmade.made, hedges ▸ nodup_sorted, hmem, hedges ▸ pairwise_sorted,
      fun a ha b hb hne => ⟨fun hkey => ?_,
      fun hdigest => ?_⟩, fun hnone l => ?_⟩
    · refine hne (orderingKey_injective hkey ?_)
      rw [h.originalOffset a ((hmem a).1 ha), h.originalOffset b ((hmem b).1 hb)]
    · exact hne (digest_injective h hapart ((hmem a).1 ha) ((hmem b).1 hb) hdigest)
    · have hat : At platform o s o.query 0 := ⟨rfl, Nat.zero_le _, .inl ⟨hnone, rfl⟩⟩
      refine ⟨fun hw => walks_eq hmade hw hat, fun hl => ?_⟩
      rw [hl]
      exact walks_exists hmade _ le_rfl hat
  · have hquery : o.query = o'.query := by rw [← hrest]
    have hmake : make platform o = make platform o' := by
      refine make_eq h hsame ?_ ?_ (congrArg queryFields hquery)
      · rw [← hrest]
        rfl
      · rw [← hrest]
    refine ⟨hmake, ?_⟩
    unfold serve
    rw [hmake, hquery]

namespace TwoEdges

def ref (name : String) (h : (SymbolFields.mk .CLASS (str name) none none none).validate.isOk =
    true) : SymbolRef := ⟨_, h⟩

theorem first_valid :
    (SymbolFields.mk .CLASS (str "LA;") none none none).validate.isOk = true := by decide +kernel

theorem second_valid :
    (SymbolFields.mk .CLASS (str "LB;") none none none).validate.isOk = true := by decide +kernel

theorem third_valid :
    (SymbolFields.mk .CLASS (str "LBC;") none none none).validate.isOk = true := by decide +kernel

def query : ReferenceQuery :=
  ⟨ref "LA;" first_valid, .OUTGOING, [.CLASS_DEPENDENCY], 1, none, false, false, none, none,
    .PAIRS, nofun,
    by decide +kernel, by decide +kernel, List.pairwise_singleton _ _, one_valid, nofun, nothing_expected⟩

def edge : ReferenceEdge :=
  ⟨ref "LA;" first_valid, ref "LB;" second_valid, .CLASS_DEPENDENCY, .RESOLVED,
    .JADX_CLASS_DEPENDENCY, [],
    str "UNAVAILABLE", none, none⟩

def other : ReferenceEdge := { edge with targetRef := ref "LBC;" third_valid }

/-- One edge is observed twice, and the edges in another order than the snapshot's. -/
def observation : Observation := ⟨[other, edge, other], query, str "s", 0, 0, str "f", []⟩

theorem sorted_edges : sorted .PAIRS [other, edge, other] = [edge, other] := by
  have hne : other ≠ edge := fun h =>
    absurd (congrArg (fun e => e.targetRef.originalClassDescriptor) h) (by decide +kernel)
  have hdups : [other, edge, other].eraseDups = [other, edge] := by
    simp [List.eraseDups_cons, hne.symm]
  have hgt : (order .PAIRS other edge).isLE = false := by decide +kernel
  unfold sorted
  rw [hdups]
  simp [List.mergeSort, List.MergeSort.Internal.splitInTwo, hgt]

theorem apart : Apart Platform.byLength (hashed Platform.byLength observation) := by
  have hhashed : hashed Platform.byLength observation = [stateFields observation, queryFields query,
      contentFields Platform.byLength observation [edge, other], edgeFields (orderingKey other),
      edgeFields (orderingKey edge), edgeFields (orderingKey other)] := by
    unfold hashed
    have hsorted : sorted observation.query.view observation.observed = [edge, other] :=
      sorted_edges
    rw [hsorted]
    rfl
  rw [hhashed]
  exact ⟨by decide +kernel, by decide +kernel⟩

theorem observed : Observed observation where
  originalOffset e he := by
    have hedge : e = other ∨ e = edge ∨ e = other := by simpa [observation] using he
    rcases hedge with rfl | rfl | rfl <;> rfl
  instruction := nofun

end TwoEdges

/-- The edges of a snapshot are the observed ones, sorted. -/
theorem edges_of_make {o : Observation} {s : ReferenceSnapshot} (h : make platform o = .ok s) :
    s.edges = sorted o.query.view o.observed := by
  unfold make at h
  split at h
  · cases h
  dsimp only at h
  split at h
  · obtain rfl := Except.ok.inj h
    rfl
  · cases h

/-- Two edges on a page each, one of them observed twice: the walk follows the cursor of the first.
-/
theorem snapshot_canonical_two : ∃ s, make Platform.byLength TwoEdges.observation = .ok s ∧
    s.edges = [TwoEdges.edge, TwoEdges.other] ∧
      Walks Platform.byLength TwoEdges.observation TwoEdges.query s.edges := by
  obtain ⟨s, hs, -, -, -, -, hwalks⟩ :=
    (snapshot_canonical Platform.byLength).1 TwoEdges.observation TwoEdges.observed TwoEdges.apart
  refine ⟨s, hs, ?_, (hwalks rfl s.edges).2 rfl⟩
  have hedges := edges_of_make hs
  exact hedges.trans TwoEdges.sorted_edges

end ReferenceSnapshot

end Libjadx
